import BracketQuery.Proofs.Phrase

/-! Phrases that have begun and not ended. Each stands for an open construct of the reader, and
keeps the tokens read so far. -/
namespace BracketQuery

/-- A condition of a chain together with the connective after it. -/
structure LinkPhrase where
  negation : Option (Keyword "not")
  test : TestPhrase
  op : ConnectivePhrase

namespace LinkPhrase

def tokens (l : LinkPhrase) : List Token :=
  negationTokens l.negation ++ l.test.tokens ++ [.word l.op.text]
def erase (l : LinkPhrase) : Expr × String := (negated l.negation l.test.expr, l.op.text)
def Valid (once : Bool) (l : LinkPhrase) : Prop :=
  (∀ w ∈ l.test.subject?, StartsWell l.negation w) ∧ l.test.Valid once

end LinkPhrase

def chainOf (links : List LinkPhrase) (negation : Option (Keyword "not")) (test : TestPhrase) :
    ChainPhrase :=
  links.foldr (fun l rest => .link l.negation l.test l.op rest) (.last negation test)

mutual

inductive OpenOuter where
  | top
  | field (block : OpenBlock)
  | among (slot : OpenSlot) (subject : String) (negation : Option (Keyword "not"))
      (keyword : Keyword "in")

/-- What a table goes back to, with what stands before its bracket. -/
inductive OpenHome where
  | root (keyword : Keyword "select") (distinct : Option (Keyword "distinct")) (name : String)
      (label : Option LabelPhrase) (outer : OpenOuter)
  | relation (block : OpenBlock) (name : FieldName) (labels : List (Nat × LabelPhrase)) (gap : Nat)

structure OpenBlock where
  single : Bool
  commas : Nat
  fields : List FieldPhrase
  home : OpenHome

structure OpenOwner where
  body : BodyPhrase
  home : OpenHome

structure OpenSlot where
  negation : Option (Keyword "not")
  links : List LinkPhrase
  frame : OpenFrame

inductive OpenFrame where
  | clause (filter : Filter) (keyword : Keyword filter.name) (owner : OpenOwner)
  | paren (slot : OpenSlot)

end

mutual

def OpenOuter.tokens : OpenOuter → List Token
  | .top => []
  | .field block => OpenBlock.tokens block ++ [.symbol "("]
  | .among slot subject negation keyword =>
    OpenSlot.tokens slot ++ .word subject :: negationTokens negation ++
      [keyword.token, .symbol "("]

def OpenHome.tokens : OpenHome → List Token
  | .root keyword distinct name label outer =>
    OpenOuter.tokens outer ++ headTokens keyword distinct name label
  | .relation block name labels gap =>
    OpenBlock.tokens block ++ .word name.text :: labelsTokens labels ++ commas gap

def OpenBlock.tokens : OpenBlock → List Token
  | ⟨single, n, fields, home⟩ =>
    OpenHome.tokens home ++ .symbol (openBracket single) :: commas n ++ fieldsTokens fields

def OpenOwner.tokens : OpenOwner → List Token
  | ⟨body, home⟩ => OpenHome.tokens home ++ body.tokens

def OpenSlot.tokens : OpenSlot → List Token
  | ⟨negation, links, frame⟩ =>
    OpenFrame.tokens frame ++ links.flatMap LinkPhrase.tokens ++ negationTokens negation

def OpenFrame.tokens : OpenFrame → List Token
  | .clause _ keyword owner => OpenOwner.tokens owner ++ [keyword.token]
  | .paren slot => OpenSlot.tokens slot ++ [.symbol "("]

end

namespace OpenHome

def name : OpenHome → String
  | .root _ _ name _ _ => name
  | .relation _ name _ _ => name.text

def label : OpenHome → Label
  | .root _ _ _ label _ => (label.map LabelPhrase.label).getD {}
  | .relation _ _ labels _ => lastLabel labels

end OpenHome

mutual

def OpenOuter.erase : OpenOuter → Outer
  | .top => .top
  | .field block => .field (OpenBlock.erase block)
  | .among slot subject negation keyword =>
    .among (OpenSlot.erase slot) subject negation.isSome keyword.text

def OpenHome.erase : OpenHome → Home
  | .root keyword distinct _ _ outer =>
    .root ⟨keyword.text, distinct.map (·.text)⟩ (OpenOuter.erase outer)
  | .relation block _ _ _ => .relation (OpenBlock.erase block)

def OpenBlock.erase : OpenBlock → Block
  | ⟨single, _, fields, home⟩ =>
    ⟨{ name := home.name, label := home.label, single := single },
      (fields.map FieldPhrase.field).reverse, OpenHome.erase home⟩

def OpenOwner.erase : OpenOwner → Owner
  | ⟨body, home⟩ => ⟨body.table home.name home.label, OpenHome.erase home⟩

def OpenSlot.erase : OpenSlot → Slot
  | ⟨negation, links, frame⟩ =>
    ⟨negation.map (·.text), (links.map LinkPhrase.erase).reverse, OpenFrame.erase frame⟩

def OpenFrame.erase : OpenFrame → Frame
  | .clause filter keyword owner => .clause filter keyword.text (OpenOwner.erase owner)
  | .paren slot => .paren (OpenSlot.erase slot)

end

/- A block is valid before the token that comes next. -/
mutual

def OpenOuter.Valid (once : Bool) : OpenOuter → Prop
  | .top => True
  | .field block => OpenBlock.Valid once (.symbol "(") block
  | .among slot subject _ _ => OpenSlot.Valid once slot ∧ StartsWell slot.negation subject

def OpenHome.Valid (once : Bool) : OpenHome → Prop
  | .root _ distinct name _ outer =>
    (distinct.isSome = true → spells name "as" = false) ∧ OpenOuter.Valid once outer
  | .relation block name labels _ =>
    LabelsValid once labels ∧ OpenBlock.Valid once (.word name.text) block

def OpenBlock.Valid (once : Bool) (t : Token) : OpenBlock → Prop
  | ⟨_, _, fields, home⟩ => FieldsValid once fields ∧ FieldsFit t fields ∧ OpenHome.Valid once home

def OpenOwner.Valid (once : Bool) : OpenOwner → Prop
  | ⟨body, home⟩ => body.Valid once ∧ OpenHome.Valid once home

def OpenSlot.Valid (once : Bool) : OpenSlot → Prop
  | ⟨_, links, frame⟩ => (∀ l ∈ links, l.Valid once) ∧ OpenFrame.Valid once frame

def OpenFrame.Valid (once : Bool) : OpenFrame → Prop
  | .clause filter _ owner =>
    OpenOwner.Valid once owner ∧ .filter filter ∉ owner.body.clauses.map ClausePhrase.kind
  | .paren slot => OpenSlot.Valid once slot

end

variable {once : Bool}

/- The clauses of an owner. -/

theorem findSome?_isSome_iff {β : Type} (g : ClausePhrase → Option β) (k : Clause)
    (hg : ∀ c, (g c).isSome = true ↔ c.kind = k) (cs : List ClausePhrase) :
    (cs.findSome? g).isSome = true ↔ k ∈ cs.map ClausePhrase.kind := by
  induction cs with
  | nil => simp
  | cons c cs ih =>
    cases h : g c with
    | none =>
      have hk : c.kind ≠ k := fun hk => by simpa [h] using (hg c).2 hk
      simp [h, ih, Ne.symm hk]
    | some b =>
      have hk : c.kind = k := (hg c).1 (by simp [h])
      simp [h, hk]

theorem ClausePhrase.condition?_isSome (f : Filter) (c : ClausePhrase) :
    (c.condition? f).isSome = true ↔ c.kind = .filter f := by
  cases c with
  | filter g keyword chain => by_cases h : g = f <;> simp [ClausePhrase.condition?, kind, h]
  | _ => simp [ClausePhrase.condition?, kind]

theorem ClausePhrase.groupBy?_isSome (c : ClausePhrase) :
    c.groupBy?.isSome = true ↔ c.kind = .groupBy := by
  cases c <;> simp [groupBy?, kind]

theorem ClausePhrase.orderBy?_isSome (c : ClausePhrase) :
    c.orderBy?.isSome = true ↔ c.kind = .orderBy := by
  cases c <;> simp [orderBy?, kind]

theorem ClausePhrase.page?_isSome (p : Page) (c : ClausePhrase) :
    (c.page? p).isSome = true ↔ c.kind = .page p := by
  cases c with
  | page q keyword value => by_cases h : q = p <;> simp [page?, kind, h]
  | _ => simp [page?, kind]

def ClausePhrase.addTo (owner : Owner) : ClausePhrase → Owner
  | .filter f keyword chain => owner.setFilter f ⟨keyword.spelling, chain.expr⟩
  | .groupBy keyword front last =>
    owner.setGroupBy ⟨.ofWord keyword.text "group by", front ++ [last]⟩
  | .orderBy keyword front last =>
    owner.setOrderBy ⟨.ofWord keyword.text "order by", (front ++ [last]).map EntryPhrase.entry⟩
  | .page p keyword value => owner.setPage p ⟨keyword.spelling, value⟩

/- What a draft holds when it is closed. -/

theorem GroupDraft.close_eq (p : ByPhrase "group") (front : List String) (last : String)
    (owner : Owner) : (GroupDraft.mk p.text (last :: front.reverse) owner).close =
      ClausePhrase.addTo owner (.groupBy p front last) := by
  simp [GroupDraft.close, ClausePhrase.addTo]

theorem EntryPhrase.close_draft (e : EntryPhrase) (draft : OrderDraft) :
    (EntryDraft.mk e.column e.modifiers.reverse draft).close =
      { draft with entries := e.entry :: draft.entries } := by
  simp [EntryDraft.close, EntryDraft.modifierText, EntryPhrase.entry]

theorem OrderDraft.close_eq (p : ByPhrase "order") (front : List EntryPhrase) (e : EntryPhrase)
    (owner : Owner) : (EntryDraft.mk e.column e.modifiers.reverse
        ⟨p.text, (front.map EntryPhrase.entry).reverse, owner⟩).close.close =
      ClausePhrase.addTo owner (.orderBy p front e) := by
  simp [e.close_draft, OrderDraft.close, ClausePhrase.addTo]

namespace BodyPhrase

def kinds (body : BodyPhrase) : List Clause := body.clauses.map ClausePhrase.kind

theorem has_iff (body : BodyPhrase) (name : String) (label : Label) (home : Home) (c : Clause) :
    (Owner.mk (body.table name label) home).has c = true ↔ c ∈ body.kinds := by
  obtain ⟨single, n, fields, clauses⟩ := body
  cases c with
  | filter f =>
    have h := findSome?_isSome_iff _ (.filter f) (ClausePhrase.condition?_isSome f) clauses
    cases f <;> simpa [Owner.has, table, kinds, conditionOf_eq] using h
  | groupBy =>
    simpa [Owner.has, table, kinds] using
      findSome?_isSome_iff _ .groupBy ClausePhrase.groupBy?_isSome clauses
  | orderBy =>
    simpa [Owner.has, table, kinds] using
      findSome?_isSome_iff _ .orderBy ClausePhrase.orderBy?_isSome clauses
  | page p =>
    have h := findSome?_isSome_iff _ (.page p) (ClausePhrase.page?_isSome p) clauses
    cases p <;> simpa [Owner.has, table, kinds] using h

def add (body : BodyPhrase) (c : ClausePhrase) : BodyPhrase :=
  { body with clauses := body.clauses ++ [c] }

theorem findSome?_none {β : Type} {body : BodyPhrase} {k : Clause} (hk : k ∉ body.kinds)
    (g : ClausePhrase → Option β) (hg : ∀ c, (g c).isSome = true ↔ c.kind = k) :
    body.clauses.findSome? g = none := by
  rw [← Option.not_isSome_iff_eq_none, findSome?_isSome_iff g k hg]
  exact hk

theorem table_add {body : BodyPhrase} (c : ClausePhrase) (hk : c.kind ∉ body.kinds) (name : String)
    (label : Label) (home : Home) :
    Owner.mk ((body.add c).table name label) home = c.addTo ⟨body.table name label, home⟩ := by
  obtain ⟨single, n, fields, clauses⟩ := body
  cases c with
  | filter f keyword chain =>
    have hn := findSome?_none hk _ (ClausePhrase.condition?_isSome f)
    simp only at hn
    cases f <;>
      simp [add, table, ClausePhrase.addTo, Owner.setFilter, conditionOf_eq, List.findSome?_append,
        hn, ClausePhrase.condition?, ClausePhrase.groupBy?, ClausePhrase.orderBy?,
        ClausePhrase.page?]
  | groupBy keyword front last =>
    have hn := findSome?_none hk _ ClausePhrase.groupBy?_isSome
    simp only at hn
    simp [add, table, ClausePhrase.addTo, Owner.setGroupBy, conditionOf_eq, List.findSome?_append,
      hn, ClausePhrase.condition?, ClausePhrase.groupBy?, ClausePhrase.orderBy?, ClausePhrase.page?]
  | orderBy keyword front last =>
    have hn := findSome?_none hk _ ClausePhrase.orderBy?_isSome
    simp only at hn
    simp [add, table, ClausePhrase.addTo, Owner.setOrderBy, conditionOf_eq, List.findSome?_append,
      hn, ClausePhrase.condition?, ClausePhrase.groupBy?, ClausePhrase.orderBy?, ClausePhrase.page?]
  | page p keyword value =>
    have hn := findSome?_none hk _ (ClausePhrase.page?_isSome p)
    simp only at hn
    cases p <;>
      simp [add, table, ClausePhrase.addTo, Owner.setPage, conditionOf_eq, List.findSome?_append,
        hn, ClausePhrase.condition?, ClausePhrase.groupBy?, ClausePhrase.orderBy?,
        ClausePhrase.page?]

end BodyPhrase

namespace OpenOwner

def kinds (o : OpenOwner) : List Clause := o.body.kinds

theorem has_iff (o : OpenOwner) (c : Clause) : o.erase.has c = true ↔ c ∈ o.kinds := by
  obtain ⟨body, home⟩ := o
  exact body.has_iff _ _ _ c

def add (o : OpenOwner) (c : ClausePhrase) : OpenOwner := ⟨o.body.add c, o.home⟩

theorem add_tokens (o : OpenOwner) (c : ClausePhrase) :
    (o.add c).tokens = o.tokens ++ c.tokens := by
  obtain ⟨⟨single, n, fields, clauses⟩, home⟩ := o
  simp [add, BodyPhrase.add, tokens, BodyPhrase.tokens, clausesTokens_eq]

theorem add_valid {o : OpenOwner} {c : ClausePhrase} (ho : o.Valid once) (hc : c.Valid once)
    (hk : c.kind ∉ o.kinds) : (o.add c).Valid once := by
  obtain ⟨⟨single, n, fields, clauses⟩, home⟩ := o
  obtain ⟨⟨hf, hs, hcs, hn⟩, hh⟩ := ho
  refine ⟨⟨hf, hs, ?_, ?_⟩, hh⟩
  · rw [ClausesValid_iff] at hcs ⊢
    simpa [or_imp, forall_and] using ⟨hcs, hc⟩
  · rw [List.map_append, List.nodup_append]
    refine ⟨hn, by simp, ?_⟩
    intro a ha b hb
    simp only [List.map_cons, List.map_nil, List.mem_singleton] at hb
    rintro rfl
    exact hk (hb ▸ ha)

theorem erase_add {o : OpenOwner} (c : ClausePhrase) (hk : c.kind ∉ o.kinds) :
    (o.add c).erase = c.addTo o.erase := by
  obtain ⟨body, home⟩ := o
  exact BodyPhrase.table_add c hk _ _ _

end OpenOwner

/- Blocks. -/

theorem FieldsFit_append (t : Token) (fs : List FieldPhrase) (f : FieldPhrase) :
    FieldsFit t (fs ++ [f]) ↔ FieldsFit f.first fs ∧ f.Fits t := by
  induction fs with
  | nil => simp [FieldsFit]
  | cons g fs ih =>
    cases fs with
    | nil => simp [FieldsFit]
    | cons h fs => simpa [FieldsFit, and_assoc] using fun _ => ih

theorem FieldsValid_append (fs : List FieldPhrase) (f : FieldPhrase) :
    FieldsValid once (fs ++ [f]) ↔ FieldsValid once fs ∧ f.Valid once := by
  simp only [FieldsValid_iff, List.mem_append, List.mem_singleton, or_imp, forall_and, forall_eq]

theorem lastLabel_append (labels : List (Nat × LabelPhrase)) (n : Nat) (l : LabelPhrase) :
    lastLabel (labels ++ [(n, l)]) = l.label := by
  simp [lastLabel]

theorem labelsTokens_append (labels : List (Nat × LabelPhrase)) (n : Nat) (l : LabelPhrase) :
    labelsTokens (labels ++ [(n, l)]) = labelsTokens labels ++ commas n ++ l.tokens := by
  simp [labelsTokens]

@[simp] theorem commas_zero : commas 0 = [] := rfl

theorem commas_succ (n : Nat) : commas (n + 1) = commas n ++ [.comma] := List.replicate_succ'

theorem Block.eta (block : Block) : Block.mk block.table block.fields block.home = block := by
  cases block; rfl

namespace OpenBlock

def push (b : OpenBlock) (f : FieldPhrase) : OpenBlock := { b with fields := b.fields ++ [f] }

theorem push_erase (b : OpenBlock) (f : FieldPhrase) : (b.push f).erase = b.erase.push f.field := by
  obtain ⟨single, n, fields, home⟩ := b
  simp [push, erase, Block.push]

theorem push_tokens (b : OpenBlock) (f : FieldPhrase) :
    (b.push f).tokens = b.tokens ++ f.tokens := by
  obtain ⟨single, n, fields, home⟩ := b
  simp [push, tokens, fieldsTokens_eq]

theorem push_valid {b : OpenBlock} {f : FieldPhrase} {t : Token} (hb : b.Valid once f.first)
    (hf : f.Valid once) (ht : f.Fits t) : (b.push f).Valid once t := by
  obtain ⟨single, n, fields, home⟩ := b
  obtain ⟨hv, hs, hh⟩ := hb
  exact ⟨(FieldsValid_append _ _).2 ⟨hv, hf⟩, (FieldsFit_append _ _ _).2 ⟨hs, ht⟩, hh⟩

theorem eq_push (b : OpenBlock) :
    b.fields = [] ∨ ∃ (front : OpenBlock) (f : FieldPhrase), b = front.push f := by
  obtain ⟨single, n, fields, home⟩ := b
  rcases List.eq_nil_or_concat fields with rfl | ⟨front, f, rfl⟩
  · exact .inl rfl
  · exact .inr ⟨⟨single, n, front, home⟩, f, by simp [push]⟩

theorem valid_of_push {b : OpenBlock} {f : FieldPhrase} {t : Token} (h : (b.push f).Valid once t) :
    b.Valid once f.first ∧ f.Valid once ∧ f.Fits t := by
  obtain ⟨single, n, fields, home⟩ := b
  obtain ⟨hv, hs, hh⟩ := h
  rw [FieldsValid_append] at hv
  rw [FieldsFit_append] at hs
  exact ⟨⟨hv.1, hs.1, hh⟩, hv.2, hs.2⟩

end OpenBlock

namespace FieldPhrase

def addComma : FieldPhrase → FieldPhrase
  | .column name labels n => .column name labels (n + 1)
  | .relation name labels gap body n => .relation name labels gap body (n + 1)
  | .subQuery select labels n => .subQuery select labels (n + 1)

theorem addComma_tokens (f : FieldPhrase) : f.addComma.tokens = f.tokens ++ [.comma] := by
  cases f <;> simp [addComma, tokens, commas_succ]

theorem addComma_field (f : FieldPhrase) : f.addComma.field = f.field := by
  cases f <;> simp [addComma, field]

theorem addComma_first (f : FieldPhrase) : f.addComma.first = f.first := by
  cases f <;> rfl

theorem addComma_valid {f : FieldPhrase} (h : f.Valid once) : f.addComma.Valid once := by
  cases f with
  | column name labels n => exact h
  | relation name labels gap body n => exact h
  | subQuery select labels n => exact h

theorem addComma_fits {f : FieldPhrase} (h : f.Fits .comma) (t : Token) : f.addComma.Fits t := by
  cases f with
  | relation name labels gap body n => simpa [addComma, Fits] using h
  | _ => trivial

end FieldPhrase

/- Conditions. -/

theorem chainOf_tokens (links : List LinkPhrase) (negation : Option (Keyword "not"))
    (test : TestPhrase) : (chainOf links negation test).tokens =
      links.flatMap LinkPhrase.tokens ++ negationTokens negation ++ test.tokens := by
  induction links with
  | nil => simp [chainOf, ChainPhrase.tokens]
  | cons l links ih =>
    simp only [chainOf, List.foldr_cons, ChainPhrase.tokens] at ih ⊢
    simp [ih, LinkPhrase.tokens]

theorem chainOf_valid {links : List LinkPhrase} {negation : Option (Keyword "not")}
    {test : TestPhrase} (hl : ∀ l ∈ links, l.Valid once)
    (hs : ∀ w ∈ test.subject?, StartsWell negation w) (ht : test.Valid once) :
    (chainOf links negation test).Valid once := by
  induction links with
  | nil => exact ⟨hs, ht⟩
  | cons l links ih =>
    have h := hl l (by simp)
    exact ⟨h.1, h.2, ih fun m hm => hl m (by simp [hm])⟩

namespace OpenSlot

theorem fill_erase (s : OpenSlot) (e : Expr) : s.erase.fill e = negated s.negation e := by
  obtain ⟨negation, links, frame⟩ := s
  cases negation <;> rfl

theorem chain_erase (s : OpenSlot) (test : TestPhrase) :
    s.erase.chain (negated s.negation test.expr) = (chainOf s.links s.negation test).expr := by
  obtain ⟨negation, links, frame⟩ := s
  simp only [erase, Slot.chain, List.foldl_reverse]
  induction links with
  | nil => simp [chainOf, ChainPhrase.expr]
  | cons l links ih =>
    simp only [chainOf, List.foldr_cons, ChainPhrase.expr, List.map_cons, LinkPhrase.erase] at ih ⊢
    rw [ih]

def link (s : OpenSlot) (test : TestPhrase) (op : ConnectivePhrase) : OpenSlot :=
  ⟨none, s.links ++ [⟨s.negation, test, op⟩], s.frame⟩

theorem link_erase (s : OpenSlot) (test : TestPhrase) (op : ConnectivePhrase) :
    (s.link test op).erase = s.erase.link (negated s.negation test.expr) op.text := by
  obtain ⟨negation, links, frame⟩ := s
  simp [link, erase, Slot.link, LinkPhrase.erase]

theorem link_tokens (s : OpenSlot) (test : TestPhrase) (op : ConnectivePhrase) :
    (s.link test op).tokens = s.tokens ++ test.tokens ++ [.word op.text] := by
  obtain ⟨negation, links, frame⟩ := s
  simp [link, tokens, LinkPhrase.tokens, negationTokens]

theorem link_valid {s : OpenSlot} {test : TestPhrase} (op : ConnectivePhrase) (hv : s.Valid once)
    (hs : ∀ w ∈ test.subject?, StartsWell s.negation w) (ht : test.Valid once) :
    (s.link test op).Valid once := by
  obtain ⟨negation, links, frame⟩ := s
  refine ⟨?_, hv.2⟩
  intro l hl
  simp only [List.mem_append, List.mem_singleton] at hl
  rcases hl with hl | rfl
  · exact hv.1 l hl
  · exact ⟨hs, ht⟩

end OpenSlot

end BracketQuery
