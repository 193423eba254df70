import BracketQuery.Keyword
import BracketQuery.Text.LetterCase

/-! The letter case of the keywords in the output, which follows the author's `select`. -/
namespace BracketQuery.Sql

inductive Casing where
  | lower | upper | title
deriving DecidableEq

namespace Casing

/-- Only these two spellings of `select` ask for capitals. -/
def ofSelect (select : Spelling) : Casing :=
  if select = some "SELECT" then .upper else if select = some "Select" then .title else .lower

def apply : Casing → String → String
  | .lower, s => Text.lowercase s
  | .upper, s => Text.uppercase s
  | .title, s => Text.titlecase s

/-- A keyword as written, or its canonical spelling in this casing. -/
def keyword (casing : Casing) (written : Spelling) (canonical : String) : String :=
  written.getD (casing.apply canonical)

/-- A word kept from the source follows the casing unless its author used capitals. -/
def word (casing : Casing) (text : String) : String :=
  if text = Text.lowercase text then casing.apply text else text

end Casing

end BracketQuery.Sql
