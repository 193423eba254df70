import BracketQuery.CommandLine.Run

/-! The JSON text of a query tells the whole query. The text of a value ends where the value does,
so no two values share a text; and no two queries share a value, though absent parts leave no
trace. -/
namespace BracketQuery

namespace Json

/- Characters and texts. -/

def hexValue (c : Char) : Nat :=
  ['0', '1', '2', '3', '4', '5', '6', '7', '8', '9', 'a', 'b', 'c', 'd', 'e', 'f'].idxOf c

/-- Reads one character of a text; a quote ends the text. -/
def unescaped : List Char → Option (Char × List Char)
  | '\x22' :: _ => none
  | '\\' :: 'u' :: _ :: _ :: high :: low :: rest =>
    some (Char.ofNat (16 * hexValue high + hexValue low), rest)
  | '\\' :: 'b' :: rest => some ('\x08', rest)
  | '\\' :: 't' :: rest => some ('\t', rest)
  | '\\' :: 'n' :: rest => some ('\n', rest)
  | '\\' :: 'f' :: rest => some ('\x0c', rest)
  | '\\' :: 'r' :: rest => some ('\r', rest)
  | '\\' :: c :: rest => some (c, rest)
  | c :: rest => some (c, rest)
  | [] => none

theorem hexValue_digitChar : ∀ n < 16, hexValue (Nat.digitChar n) = n := by decide

theorem unescaped_escaped (c : Char) (rest : List Char) :
    unescaped (escaped c ++ rest) = some (c, rest) := by
  unfold escaped
  -- the characters that have a letter of their own
  repeat
    split
    · subst_vars
      rfl
  split
  · rename_i hc
    have hhigh := hexValue_digitChar (c.toNat / 16) (by omega)
    have hlow := hexValue_digitChar (c.toNat % 16) (by omega)
    have hsum : 16 * (c.toNat / 16) + c.toNat % 16 = c.toNat := Nat.div_add_mod _ _
    simp [unescaped, hexByte, hhigh, hlow, hsum]
  · rw [List.singleton_append]
    unfold unescaped
    split <;> simp_all

theorem escaped_append_inj {c d : Char} {r s : List Char} (h : escaped c ++ r = escaped d ++ s) :
    c = d ∧ r = s := by
  have hread := congrArg unescaped h
  simpa [unescaped_escaped] using hread

theorem escaped_append_ne_quote (c : Char) (r s : List Char) : escaped c ++ r ≠ '\x22' :: s := by
  intro h
  have hread := congrArg unescaped h
  rw [unescaped_escaped] at hread
  cases hread

theorem flatMap_escaped_inj {cs ds r s : List Char}
    (h : cs.flatMap escaped ++ '\x22' :: r = ds.flatMap escaped ++ '\x22' :: s) :
    cs = ds ∧ r = s := by
  induction cs generalizing ds with
  | nil =>
    cases ds with
    | nil => simpa using h
    | cons d ds =>
      rw [List.flatMap_cons, List.append_assoc] at h
      exact absurd h.symm (escaped_append_ne_quote d _ r)
  | cons c cs ih =>
    rw [List.flatMap_cons, List.append_assoc] at h
    cases ds with
    | nil => exact absurd h (escaped_append_ne_quote c _ s)
    | cons d ds =>
      rw [List.flatMap_cons, List.append_assoc] at h
      obtain ⟨rfl, hrest⟩ := escaped_append_inj h
      obtain ⟨rfl, rfl⟩ := ih hrest
      exact ⟨rfl, rfl⟩

theorem strText_append_inj {a b : String} {r s : List Char}
    (h : (strText a).toList ++ r = (strText b).toList ++ s) : a = b ∧ r = s := by
  have hchars :
      a.toList.flatMap escaped ++ '\x22' :: r = b.toList.flatMap escaped ++ '\x22' :: s := by
    simpa [strText] using h
  obtain ⟨hab, hrs⟩ := flatMap_escaped_inj hchars
  exact ⟨String.toList_inj.1 hab, hrs⟩

/- Values. -/

/-- What comes after an item: other items on lines of their own, and the closing bracket. -/
def afterItem (closing : String) (level : Nat) : List String → String
  | [] => lineStart level ++ closing
  | item :: items => "," ++ lineStart (level + 1) ++ item ++ afterItem closing level items

theorem enclosed_cons (opening closing : String) (level : Nat) (item : String)
    (items : List String) :
    enclosed opening closing level (item :: items) =
      opening ++ lineStart (level + 1) ++ item ++ afterItem closing level items := by
  have hitems : ("," ++ lineStart (level + 1)).intercalate (item :: items) ++ lineStart level
      ++ closing = item ++ afterItem closing level items := by
    induction items generalizing item with
    | nil => simp [afterItem, String.append_assoc]
    | cons next items ih =>
      rw [String.intercalate_cons_cons, afterItem]
      simp only [String.append_assoc] at ih ⊢
      rw [ih next]
  simp only [String.append_assoc] at hitems
  simp [enclosed, String.append_assoc, hitems]

section Enclosed
variable {α : Type} {f : α → String} {opening closing : String} {k : Char} {level : Nat}

/-- The text of the item ends where the item does. -/
def Delimited (f : α → String) (a : α) : Prop :=
  ∀ b r s, (f a).toList ++ r = (f b).toList ++ s → a = b ∧ r = s

theorem afterItem_append_inj {as bs : List α} (ha : ∀ a ∈ as, Delimited f a) {r s : List Char}
    (h : (afterItem closing level (as.map f)).toList ++ r =
      (afterItem closing level (bs.map f)).toList ++ s) : as = bs ∧ r = s := by
  induction as generalizing bs with
  | nil =>
    cases bs with
    | nil => exact ⟨rfl, List.append_cancel_left h⟩
    | cons b bs => simp [afterItem, lineStart] at h
  | cons a as ih =>
    cases bs with
    | nil => simp [afterItem, lineStart] at h
    | cons b bs =>
      rw [List.forall_mem_cons] at ha
      have hitem : (f a).toList ++ ((afterItem closing level (as.map f)).toList ++ r) =
          (f b).toList ++ ((afterItem closing level (bs.map f)).toList ++ s) := by
        simpa [afterItem] using h
      obtain ⟨rfl, hrest⟩ := ha.1 b _ _ hitem
      obtain ⟨rfl, rfl⟩ := ih ha.2 hrest
      exact ⟨rfl, rfl⟩

theorem enclosed_append_inj (hclosing : closing.toList = [k]) (hk : k ≠ '\n') {as bs : List α}
    (ha : ∀ a ∈ as, Delimited f a) {r s : List Char}
    (h : (enclosed opening closing level (as.map f)).toList ++ r =
      (enclosed opening closing level (bs.map f)).toList ++ s) : as = bs ∧ r = s := by
  cases as with
  | nil =>
    cases bs with
    | nil => exact ⟨rfl, List.append_cancel_left h⟩
    | cons b bs =>
      rw [List.map_cons, enclosed_cons] at h
      simp [enclosed, hclosing, lineStart, hk] at h
  | cons a as =>
    rw [List.map_cons, enclosed_cons] at h
    cases bs with
    | nil => simp [enclosed, hclosing, lineStart, hk.symm] at h
    | cons b bs =>
      rw [List.forall_mem_cons] at ha
      have hitem : (f a).toList ++ ((afterItem closing level (as.map f)).toList ++ r) =
          (f b).toList ++ ((afterItem closing level (bs.map f)).toList ++ s) := by
        simpa [enclosed_cons] using h
      obtain ⟨rfl, hrest⟩ := ha.1 b _ _ hitem
      obtain ⟨rfl, rfl⟩ := afterItem_append_inj ha.2 hrest
      exact ⟨rfl, rfl⟩

end Enclosed

def memberText (level : Nat) (m : String × Json) : String :=
  strText m.1 ++ ": " ++ prettyAt level m.2

theorem prettyItems_eq (level : Nat) (items : List Json) :
    prettyItems level items = items.map (prettyAt level) := by
  induction items with
  | nil => rfl
  | cons item items ih => rw [prettyItems, ih, List.map_cons]

theorem prettyMembers_eq (level : Nat) (members : Members) :
    prettyMembers level members = members.map (memberText level) := by
  induction members with
  | nil => rfl
  | cons m members ih => rw [prettyMembers, ih, List.map_cons, memberText]

theorem Delimited.memberText {level : Nat} {m : String × Json}
    (h : Delimited (prettyAt level) m.2) : Delimited (memberText level) m := by
  intro n r s hm
  simp only [Json.memberText, String.toList_append, List.append_assoc] at hm
  obtain ⟨hkey, hvalue⟩ := strText_append_inj hm
  obtain ⟨hvalue, hrest⟩ := h n.2 r s (List.append_cancel_left hvalue)
  exact ⟨Prod.ext hkey hvalue, hrest⟩

/-- The first character tells the kind of the value. -/
def lead : Json → Char
  | .str _ => '\x22'
  | .bool value => if value then 't' else 'f'
  | .arr _ => '['
  | .obj _ => '\x7b'

theorem prettyAt_lead (level : Nat) (j : Json) :
    ∃ cs, (prettyAt level j).toList = j.lead :: cs := by
  have henclosed (o c : String) (k : Char) (items : List String) (ho : o.toList = [k]) :
      ∃ cs, (enclosed o c level items).toList = k :: cs := by
    unfold enclosed
    split <;> simp [ho]
  cases j with
  | str text => simp [prettyAt, strText, lead]
  | bool value => cases value <;> simp [prettyAt, lead]
  | arr items => exact henclosed _ _ _ _ rfl
  | obj members => exact henclosed _ _ _ _ rfl

theorem lead_eq {level : Nat} {a b : Json} {r s : List Char}
    (h : (prettyAt level a).toList ++ r = (prettyAt level b).toList ++ s) : a.lead = b.lead := by
  obtain ⟨as, ha⟩ := prettyAt_lead level a
  obtain ⟨bs, hb⟩ := prettyAt_lead level b
  rw [ha, hb] at h
  exact (List.cons.inj h).1

mutual

theorem prettyAt_delimited (level : Nat) : (a : Json) → Delimited (prettyAt level) a
  | .str text => fun b r s h => by
    cases b with
    | str text' =>
      obtain ⟨rfl, rfl⟩ := strText_append_inj h
      exact ⟨rfl, rfl⟩
    | _ => exact absurd (lead_eq h) (by grind [lead])
  | .bool value => fun b r s h => by
    have hlead := lead_eq h
    cases b with
    | bool value' =>
      obtain rfl : value = value' := by grind [lead]
      exact ⟨rfl, List.append_cancel_left h⟩
    | _ => exact absurd hlead (by grind [lead])
  | .arr items => fun b r s h => by
    cases b with
    | arr items' =>
      simp only [prettyAt, prettyItems_eq] at h
      obtain ⟨rfl, rfl⟩ :=
        enclosed_append_inj rfl (by decide) (items_delimited (level + 1) items) h
      exact ⟨rfl, rfl⟩
    | _ => exact absurd (lead_eq h) (by grind [lead])
  | .obj members => fun b r s h => by
    cases b with
    | obj members' =>
      simp only [prettyAt, prettyMembers_eq] at h
      obtain ⟨rfl, rfl⟩ :=
        enclosed_append_inj rfl (by decide) (members_delimited (level + 1) members) h
      exact ⟨rfl, rfl⟩
    | _ => exact absurd (lead_eq h) (by grind [lead])

theorem items_delimited (level : Nat) : (items : List Json) →
    ∀ a ∈ items, Delimited (prettyAt level) a
  | [] => by simp
  | item :: items =>
    List.forall_mem_cons.2 ⟨prettyAt_delimited level item, items_delimited level items⟩

theorem members_delimited (level : Nat) : (members : Members) →
    ∀ m ∈ members, Delimited (memberText level) m
  | [] => by simp
  | (key, value) :: members => List.forall_mem_cons.2
    ⟨(prettyAt_delimited level value).memberText, members_delimited level members⟩

end

/- Queries. Each part is found again under its key. -/

def member (key : String) : Json → Option Json
  | .obj members => members.lookup key
  | _ => none

section Member
variable (key name : String)

@[simp] theorem member_nil : member key (.obj []) = none := rfl

@[simp] theorem member_cons (value : Json) (members : Members) :
    member key (.obj ((name, value) :: members)) =
      if key = name then some value else member key (.obj members) := by
  simp only [member, List.lookup_cons]
  split <;> simp_all

@[simp] theorem member_append (ms ns : Members) :
    member key (.obj (ms ++ ns)) = (member key (.obj ms)).or (member key (.obj ns)) :=
  List.lookup_append

@[simp] theorem member_optionMember {α : Type} (f : α → Json) (o : Option α) :
    member key (.obj (optionMember name f o)) = if key = name then o.map f else none := by
  cases o <;> simp [optionMember]

@[simp] theorem member_textMember (text : Option String) :
    member key (.obj (textMember name text)) = if key = name then text.map .str else none := by
  cases text <;> simp [textMember]

@[simp] theorem member_flagMember (value : Bool) :
    member key (.obj (flagMember name value)) =
      if key = name then if value then some (.bool true) else none else none := by
  cases value <;> simp [flagMember]

@[simp] theorem member_labelMembers (label : Label) :
    member key (.obj (labelMembers label)) =
      if key = "alias" then label.name.map .str
      else if key = "alias_keyword_text" then label.keyword.map .str else none := by
  by_cases hkey : key = "alias"
  · simp [labelMembers, hkey]
  · simp [labelMembers, hkey]

end Member

@[simp] theorem map_str_inj {o p : Option String} : o.map str = p.map str ↔ o = p :=
  Option.map_inj_right fun _ _ => str.inj

theorem ofColumn_inj {a b : Column} (h : ofColumn a = ofColumn b) : a = b := by
  obtain ⟨name, label, keyword⟩ := a
  obtain ⟨name', label', keyword'⟩ := b
  have hmember (key : String) := congrArg (member key) h
  have hname : name = name' := by simpa [ofColumn] using hmember "name"
  have hlabel : label = label' := by simpa [ofColumn] using hmember "alias"
  have hkeyword : keyword = keyword' := by simpa [ofColumn] using hmember "alias_keyword_text"
  rw [hname, hlabel, hkeyword]

theorem ofGroupBy_inj {a b : GroupBy} (h : ofGroupBy a = ofGroupBy b) : a = b := by
  obtain ⟨keyword, columns⟩ := a
  obtain ⟨keyword', columns'⟩ := b
  have hmember (key : String) := congrArg (member key) h
  have hkeyword : keyword = keyword' := by simpa [ofGroupBy] using hmember "keyword_text"
  have hcolumns : columns.map str = columns'.map str := by simpa [ofGroupBy] using hmember "fields"
  rw [hkeyword, (List.map_inj_right fun _ _ => str.inj).1 hcolumns]

theorem ofOrderEntry_inj {a b : OrderEntry} (h : ofOrderEntry a = ofOrderEntry b) : a = b := by
  obtain ⟨column, modifiers⟩ := a
  obtain ⟨column', modifiers'⟩ := b
  have hmember (key : String) := congrArg (member key) h
  have hcolumn : column = column' := by simpa [ofOrderEntry] using hmember "name"
  have hmodifiers : modifiers = modifiers' := by
    simpa [ofOrderEntry] using hmember "order_modifiers"
  rw [hcolumn, hmodifiers]

theorem ofOrderBy_inj {a b : OrderBy} (h : ofOrderBy a = ofOrderBy b) : a = b := by
  obtain ⟨keyword, entries⟩ := a
  obtain ⟨keyword', entries'⟩ := b
  have hmember (key : String) := congrArg (member key) h
  have hkeyword : keyword = keyword' := by simpa [ofOrderBy] using hmember "keyword_text"
  have hentries : entries.map ofOrderEntry = entries'.map ofOrderEntry := by
    simpa [ofOrderBy] using hmember "fields"
  rw [hkeyword, (List.map_inj_right fun _ _ => ofOrderEntry_inj).1 hentries]

theorem ofPaging_inj {a b : Paging} (h : ofPaging a = ofPaging b) : a = b := by
  obtain ⟨keyword, value⟩ := a
  obtain ⟨keyword', value'⟩ := b
  have hmember (key : String) := congrArg (member key) h
  have hkeyword : keyword = keyword' := by simpa [ofPaging] using hmember "keyword_text"
  have hvalue : value = value' := by simpa [ofPaging] using hmember "value"
  rw [hkeyword, hvalue]

def ofCondition (condition : Condition) : Json :=
  .obj (textMember "keyword_text" condition.keyword ++ [("expr", ofExpr condition.expr)])

@[simp] theorem conditionMember_eq (key : String) (condition : Option Condition) :
    conditionMember key condition = optionMember key ofCondition condition := by
  rcases condition with _ | ⟨keyword, expr⟩
  · rfl
  · rfl

def ofField : Field → Json
  | .column column => ofColumn column
  | .relation table => .obj (("type", .str "table") :: ofTable table)
  | .subQuery select label =>
    .obj ([("type", .str "subQuery"), ("select", ofSelect select)] ++ labelMembers label)

theorem ofFields_cons (field : Field) (fields : List Field) :
    ofFields (field :: fields) = ofField field :: ofFields fields := by
  cases field <;> rfl

/- The induction is on the first query, through all that is nested in it. -/
mutual

theorem ofSelect_inj : (a b : Select) → ofSelect a = ofSelect b → a = b
  | ⟨keyword, distinct, distinctKeyword, table⟩, ⟨keyword', distinct', distinctKeyword', table'⟩,
      h => by
    have hmember (key : String) := congrArg (member key) h
    have hkeyword : keyword = keyword' := by simpa [ofSelect] using hmember "select_keyword_text"
    have hdistinct : distinct = distinct' := by
      have hflag := hmember "distinct"
      cases distinct <;> cases distinct' <;> simp [ofSelect] at hflag ⊢
    have hdistinctKeyword : distinctKeyword = distinctKeyword' := by
      simpa [ofSelect] using hmember "distinct_keyword_text"
    have htable : ofTable table = ofTable table' := by simpa [ofSelect] using hmember "table"
    rw [hkeyword, hdistinct, hdistinctKeyword, ofTable_inj table table' htable]

theorem ofTable_inj : (a b : Table) → ofTable a = ofTable b → a = b
  | ⟨name, ⟨label, keyword⟩, single, fields, rows, groups, groupBy, orderBy, limit, offset⟩,
      ⟨name', ⟨label', keyword'⟩, single', fields', rows', groups', groupBy', orderBy', limit',
        offset'⟩, h => by
    have hmember (key : String) := congrArg (member key) (congrArg obj h)
    have hname : name = name' := by simpa [ofTable] using hmember "name"
    have hlabel : label = label' := by simpa [ofTable] using hmember "alias"
    have hkeyword : keyword = keyword' := by simpa [ofTable] using hmember "alias_keyword_text"
    have hsingle : single = single' := by simpa [ofTable] using hmember "is_single"
    have hfields : ofFields fields = ofFields fields' := by simpa [ofTable] using hmember "fields"
    have hrows : rows.map ofCondition = rows'.map ofCondition := by
      simpa [ofTable] using hmember "where"
    have hgroups : groups.map ofCondition = groups'.map ofCondition := by
      simpa [ofTable] using hmember "having"
    have hgroupBy : groupBy.map ofGroupBy = groupBy'.map ofGroupBy := by
      simpa [ofTable] using hmember "group_by"
    have horderBy : orderBy.map ofOrderBy = orderBy'.map ofOrderBy := by
      simpa [ofTable] using hmember "order_by"
    have hlimit : limit.map ofPaging = limit'.map ofPaging := by
      simpa [ofTable] using hmember "limit"
    have hoffset : offset.map ofPaging = offset'.map ofPaging := by
      simpa [ofTable] using hmember "offset"
    rw [hname, hlabel, hkeyword, hsingle, ofFields_inj fields fields' hfields,
      condition?_inj rows rows' hrows, condition?_inj groups groups' hgroups,
      (Option.map_inj_right fun _ _ => ofGroupBy_inj).1 hgroupBy,
      (Option.map_inj_right fun _ _ => ofOrderBy_inj).1 horderBy,
      (Option.map_inj_right fun _ _ => ofPaging_inj).1 hlimit,
      (Option.map_inj_right fun _ _ => ofPaging_inj).1 hoffset]

theorem ofFields_inj : (as bs : List Field) → ofFields as = ofFields bs → as = bs
  | [], [], _ => rfl
  | [], b :: bs, h => by simp [ofFields_cons, ofFields] at h
  | a :: as, [], h => by simp [ofFields_cons, ofFields] at h
  | a :: as, b :: bs, h => by
    rw [ofFields_cons, ofFields_cons] at h
    obtain ⟨hfield, hrest⟩ := List.cons.inj h
    rw [ofField_inj a b hfield, ofFields_inj as bs hrest]

theorem ofField_inj : (a b : Field) → ofField a = ofField b → a = b
  | .column column, b, h => by
    cases b with
    | column column' => rw [ofColumn_inj h]
    | _ => simp [ofField, ofColumn] at h
  | .relation table, b, h => by
    cases b with
    | relation table' =>
      have htable : ofTable table = ofTable table' := by simpa [ofField] using h
      rw [ofTable_inj table table' htable]
    | _ => simp [ofField, ofColumn] at h
  | .subQuery select ⟨label, keyword⟩, b, h => by
    cases b with
    | subQuery select' other =>
      obtain ⟨label', keyword'⟩ := other
      have hmember (key : String) := congrArg (member key) h
      have hselect : ofSelect select = ofSelect select' := by
        simpa [ofField] using hmember "select"
      have hlabel : label = label' := by simpa [ofField] using hmember "alias"
      have hkeyword : keyword = keyword' := by
        simpa [ofField] using hmember "alias_keyword_text"
      rw [ofSelect_inj select select' hselect, hlabel, hkeyword]
    | _ => simp [ofField, ofColumn] at h

theorem condition?_inj : (a b : Option Condition) → a.map ofCondition = b.map ofCondition → a = b
  | none, none, _ => rfl
  | none, some _, h => by simp at h
  | some _, none, h => by simp at h
  | some ⟨keyword, expr⟩, some ⟨keyword', expr'⟩, h => by
    have hmember (key : String) := congrArg (member key) (Option.some.inj h)
    have hkeyword : keyword = keyword' := by simpa [ofCondition] using hmember "keyword_text"
    have hexpr : ofExpr expr = ofExpr expr' := by simpa [ofCondition] using hmember "expr"
    rw [hkeyword, ofExpr_inj expr expr' hexpr]

theorem ofExpr_inj : (a b : Expr) → ofExpr a = ofExpr b → a = b
  | .compare left op right, b, h => by
    have hmember (key : String) := congrArg (member key) h
    cases b with
    | compare left' op' right' =>
      have hleft : ofOperand left = ofOperand left' := by simpa [ofExpr] using hmember "left"
      have hop : op = op' := by simpa [ofExpr] using hmember "op"
      have hright : ofOperand right = ofOperand right' := by simpa [ofExpr] using hmember "right"
      rw [ofOperand_inj left left' hleft, hop, ofOperand_inj right right' hright]
    | _ => simp [ofExpr] at h
  | .not keyword inner, b, h => by
    have hmember (key : String) := congrArg (member key) h
    cases b with
    | not keyword' inner' =>
      have hkeyword : keyword = keyword' := by simpa [ofExpr] using hmember "keyword_text"
      have hinner : ofExpr inner = ofExpr inner' := by simpa [ofExpr] using hmember "expr"
      rw [hkeyword, ofExpr_inj inner inner' hinner]
    | _ => simp [ofExpr] at h
  | .paren inner, b, h => by
    have hmember (key : String) := congrArg (member key) h
    cases b with
    | paren inner' =>
      have hinner : ofExpr inner = ofExpr inner' := by simpa [ofExpr] using hmember "expr"
      rw [ofExpr_inj inner inner' hinner]
    | _ => simp [ofExpr] at h
  | .between keyword subject negated andKeyword low high, b, h => by
    have hmember (key : String) := congrArg (member key) h
    cases b with
    | between keyword' subject' negated' andKeyword' low' high' =>
      have hkeyword : keyword = keyword' := by simpa [ofExpr] using hmember "keyword_text"
      have hsubject : subject = subject' := by simpa [ofExpr] using hmember "expr"
      have hnegated : negated = negated' := by simpa [ofExpr] using hmember "negated"
      have hand : andKeyword = andKeyword' := by simpa [ofExpr] using hmember "and_keyword_text"
      have hlow : low = low' := by simpa [ofExpr] using hmember "low"
      have hhigh : high = high' := by simpa [ofExpr] using hmember "high"
      rw [hkeyword, hsubject, hnegated, hand, hlow, hhigh]
    | _ => simp [ofExpr] at h
  | .among keyword subject negated select, b, h => by
    have hmember (key : String) := congrArg (member key) h
    cases b with
    | among keyword' subject' negated' select' =>
      have hkeyword : keyword = keyword' := by simpa [ofExpr] using hmember "keyword_text"
      have hsubject : subject = subject' := by simpa [ofExpr] using hmember "expr"
      have hnegated : negated = negated' := by simpa [ofExpr] using hmember "negated"
      have hselect : ofSelect select = ofSelect select' := by simpa [ofExpr] using hmember "select"
      rw [hkeyword, hsubject, hnegated, ofSelect_inj select select' hselect]
    | _ => simp [ofExpr] at h

theorem ofOperand_inj : (a b : Operand) → ofOperand a = ofOperand b → a = b
  | .value text, .value text', h => by rw [str.inj h]
  | .value text, .expr expr, h => by cases expr <;> simp [ofOperand, ofExpr] at h
  | .expr expr, .value text, h => by cases expr <;> simp [ofOperand, ofExpr] at h
  | .expr expr, .expr expr', h => by rw [ofExpr_inj expr expr' h]

end

end Json

/-- The dump of a query, made by the reader or not, is that of no other query. -/
theorem CommandLine.output_ast_inj (a b : Select) :
    CommandLine.output true a = CommandLine.output true b ↔ a = b := by
  constructor
  · intro h
    have htext : (Json.ofSelect a).pretty.toList ++ [] = (Json.ofSelect b).pretty.toList ++ [] :=
      congrArg (String.toList · ++ []) h
    obtain ⟨hvalue, -⟩ := Json.prettyAt_delimited 0 _ _ _ _ htext
    exact Json.ofSelect_inj a b hvalue
  · exact congrArg _

end BracketQuery
