import BracketQuery.Proofs.OpenPhrase

/-! Canonical phrases. Commas stand after fields only, each field has its last label, the clauses of
a table come in a fixed order and a `not` inside a test is in lower case. The canonical form of a
phrase has the same tree. -/
namespace BracketQuery

/-- The clause that comes first in the list among those of a kind. -/
def clauseOf (k : Clause) (cs : List ClausePhrase) : Option ClausePhrase := cs.find? (·.kind = k)

def listKinds : List Clause := [.orderBy, .groupBy]
def otherKinds : List Clause := [.filter .rows, .filter .groups, .page .limit, .page .offset]
def clauseOrder : List Clause := listKinds ++ otherKinds

def arranged (cs : List ClausePhrase) : List ClausePhrase :=
  clauseOrder.flatMap fun k => (clauseOf k cs).toList

def ClausePhrase.lists : ClausePhrase → Bool
  | .groupBy .. => true
  | .orderBy .. => true
  | _ => false

/-- The last clause lists columns, so it would take a comma for its own. -/
def endsInList (cs : List ClausePhrase) : Bool := cs.getLast?.any ClausePhrase.lists

def lastOnly (labels : List (Nat × LabelPhrase)) : List (Nat × LabelPhrase) :=
  labels.getLast?.toList.map fun l => (0, l.2)

def plainNot (negation : Option (Keyword "not")) : Option (Keyword "not") :=
  negation.map fun _ => ⟨"not", by decide⟩

mutual

def SelectPhrase.canonical : SelectPhrase → SelectPhrase
  | ⟨keyword, distinct, name, label, body⟩ =>
    ⟨keyword, distinct, name, label, BodyPhrase.canonical body⟩

def BodyPhrase.canonical : BodyPhrase → BodyPhrase
  | ⟨single, _, fields, clauses⟩ =>
    ⟨single, 0, canonicalFields fields, arranged (canonicalClauses clauses)⟩

def FieldPhrase.canonical : FieldPhrase → FieldPhrase
  | .column name labels _ => .column name (lastOnly labels) 1
  | .relation name labels _ body _ =>
    .relation name (lastOnly labels) 0 (BodyPhrase.canonical body)
      (if endsInList (BodyPhrase.canonical body).clauses then 0 else 1)
  | .subQuery select labels _ => .subQuery (SelectPhrase.canonical select) (lastOnly labels) 1

def canonicalFields : List FieldPhrase → List FieldPhrase
  | [] => []
  | f :: fs => FieldPhrase.canonical f :: canonicalFields fs

def ClausePhrase.canonical : ClausePhrase → ClausePhrase
  | .filter f keyword chain => .filter f keyword (ChainPhrase.canonical chain)
  | .groupBy keyword front last => .groupBy keyword front last
  | .orderBy keyword front last => .orderBy keyword front last
  | .page p keyword value => .page p keyword value

def canonicalClauses : List ClausePhrase → List ClausePhrase
  | [] => []
  | c :: cs => ClausePhrase.canonical c :: canonicalClauses cs

def ChainPhrase.canonical : ChainPhrase → ChainPhrase
  | .last negation test => .last negation (TestPhrase.canonical test)
  | .link negation test op rest =>
    .link negation (TestPhrase.canonical test) op (ChainPhrase.canonical rest)

def TestPhrase.canonical : TestPhrase → TestPhrase
  | .compare left op right => .compare left op right
  | .between subject negation keyword low andKeyword high =>
    .between subject (plainNot negation) keyword low andKeyword high
  | .among subject negation keyword select =>
    .among subject (plainNot negation) keyword (SelectPhrase.canonical select)
  | .paren inner => .paren (ChainPhrase.canonical inner)

end

theorem canonicalClauses_eq (cs : List ClausePhrase) :
    canonicalClauses cs = cs.map ClausePhrase.canonical := by
  induction cs with
  | nil => rfl
  | cons c cs ih => simp [canonicalClauses, ih]

/- The clauses in their order. -/

theorem clauseOf_kind {k : Clause} {cs : List ClausePhrase} {c : ClausePhrase}
    (h : clauseOf k cs = some c) : c.kind = k := by
  simpa using List.find?_some h

theorem clauseOf_mem {k : Clause} {cs : List ClausePhrase} {c : ClausePhrase}
    (h : clauseOf k cs = some c) : c ∈ cs := List.mem_of_find?_eq_some h

theorem mem_clauseOrder (k : Clause) : k ∈ clauseOrder := by
  cases k with
  | filter f => cases f <;> decide
  | groupBy => decide
  | orderBy => decide
  | page p => cases p <;> decide

theorem mem_arranged {c : ClausePhrase} {cs : List ClausePhrase} :
    c ∈ arranged cs ↔ clauseOf c.kind cs = some c := by
  simp only [arranged, List.mem_flatMap, Option.mem_toList]
  constructor
  · rintro ⟨k, -, hk⟩
    rw [clauseOf_kind hk]
    exact hk
  · intro h
    exact ⟨c.kind, mem_clauseOrder _, h⟩

theorem findSome?_clauseOf {β : Type} (g : ClausePhrase → Option β) {k : Clause}
    (hg : ∀ c, (g c).isSome = true ↔ c.kind = k) (cs : List ClausePhrase) :
    cs.findSome? g = (clauseOf k cs).bind g := by
  induction cs with
  | nil => rfl
  | cons c cs ih =>
    by_cases hk : c.kind = k
    · obtain ⟨b, hb⟩ := Option.isSome_iff_exists.1 ((hg c).2 hk)
      simp [clauseOf, hk, hb]
    · have hn : g c = none := by
        rw [← Option.not_isSome_iff_eq_none, hg]
        exact hk
      simp only [clauseOf] at ih
      simp [clauseOf, hk, hn, ih]

theorem clauseOf_flatMap (ks : List Clause) (k : Clause) (cs : List ClausePhrase) :
    clauseOf k (ks.flatMap fun j => (clauseOf j cs).toList) =
      if k ∈ ks then clauseOf k cs else none := by
  induction ks with
  | nil => rfl
  | cons j ks ih =>
    have hj : clauseOf k (clauseOf j cs).toList = if j = k then clauseOf k cs else none := by
      cases h : clauseOf j cs with
      | none =>
        by_cases hjk : j = k
        · subst hjk
          rw [if_pos rfl, h]
          rfl
        · rw [if_neg hjk]
          rfl
      | some c =>
        by_cases hjk : j = k
        · subst hjk
          rw [if_pos rfl, h]
          simp [clauseOf, clauseOf_kind h]
        · simp [clauseOf, clauseOf_kind h, hjk]
    have happ : clauseOf k ((j :: ks).flatMap fun j => (clauseOf j cs).toList) =
        (clauseOf k (clauseOf j cs).toList).or
          (clauseOf k (ks.flatMap fun j => (clauseOf j cs).toList)) := by
      simp [clauseOf, List.find?_append]
    rw [happ, hj, ih]
    by_cases hjk : j = k
    · subst hjk
      by_cases hm : j ∈ ks <;> cases clauseOf j cs <;> simp [hm]
    · simp [hjk, Ne.symm hjk]

theorem clauseOf_arranged (k : Clause) (cs : List ClausePhrase) :
    clauseOf k (arranged cs) = clauseOf k cs := by
  rw [arranged, clauseOf_flatMap, if_pos (mem_clauseOrder k)]

theorem findSome?_arranged {β : Type} (g : ClausePhrase → Option β) {k : Clause}
    (hg : ∀ c, (g c).isSome = true ↔ c.kind = k) (cs : List ClausePhrase) :
    (arranged cs).findSome? g = cs.findSome? g := by
  rw [findSome?_clauseOf g hg, findSome?_clauseOf g hg, clauseOf_arranged]

theorem arranged_nodup (cs : List ClausePhrase) : ((arranged cs).map ClausePhrase.kind).Nodup := by
  have hsub : ((arranged cs).map ClausePhrase.kind).Sublist clauseOrder := by
    unfold arranged
    induction clauseOrder with
    | nil => simp
    | cons k ks ih =>
      rw [List.flatMap_cons, List.map_append]
      cases h : clauseOf k cs with
      | none => exact ih.cons k
      | some c => simpa [clauseOf_kind h] using ih.cons_cons k
  exact hsub.nodup (by decide)

/- The same tree. -/

theorem ClausePhrase.canonical_kind (c : ClausePhrase) : c.canonical.kind = c.kind := by
  cases c <;> simp [canonical, kind]

theorem lastLabel_lastOnly (labels : List (Nat × LabelPhrase)) :
    lastLabel (lastOnly labels) = lastLabel labels := by
  cases h : labels.getLast? <;> simp [lastLabel, lastOnly, h]

theorem plainNot_isSome (negation : Option (Keyword "not")) :
    (plainNot negation).isSome = negation.isSome := by
  simp [plainNot]

theorem findSome?_canonicalClauses {β : Type} {g : ClausePhrase → Option β}
    (hg : ∀ c, g (ClausePhrase.canonical c) = g c) (cs : List ClausePhrase) :
    (canonicalClauses cs).findSome? g = cs.findSome? g := by
  rw [canonicalClauses_eq, List.findSome?_map]
  exact congrArg (List.findSome? · cs) (funext hg)

mutual

theorem SelectPhrase.canonical_select : (c : SelectPhrase) → c.canonical.select = c.select
  | ⟨keyword, distinct, name, label, body⟩ => by
    simp only [SelectPhrase.canonical, SelectPhrase.select, BodyPhrase.canonical_table body]

theorem BodyPhrase.canonical_table : (body : BodyPhrase) → (name : String) → (label : Label) →
    body.canonical.table name label = body.table name label
  | ⟨single, n, fields, clauses⟩, name, label => by
    have hg := findSome?_canonicalClauses (g := ClausePhrase.groupBy?)
      (fun c => by cases c <;> rfl) clauses
    have ho := findSome?_canonicalClauses (g := ClausePhrase.orderBy?)
      (fun c => by cases c <;> rfl) clauses
    have hp (p : Page) := findSome?_canonicalClauses (g := ClausePhrase.page? p)
      (fun c => by cases c <;> rfl) clauses
    have hf (f : Filter) : conditionOf f (arranged (canonicalClauses clauses)) =
        conditionOf f clauses := by
      rw [conditionOf_eq, findSome?_arranged _ (ClausePhrase.condition?_isSome f), ← conditionOf_eq,
        conditionOf_canonical f clauses]
    simp only [BodyPhrase.canonical, BodyPhrase.table, fieldsOf_canonical fields, hf,
      findSome?_arranged _ ClausePhrase.groupBy?_isSome, hg,
      findSome?_arranged _ ClausePhrase.orderBy?_isSome, ho,
      findSome?_arranged _ (ClausePhrase.page?_isSome _), hp]

theorem FieldPhrase.canonical_field : (f : FieldPhrase) → f.canonical.field = f.field
  | .column name labels n => by
    simp only [FieldPhrase.canonical, FieldPhrase.field, lastLabel_lastOnly]
  | .relation name labels gap body n => by
    simp only [FieldPhrase.canonical, FieldPhrase.field, lastLabel_lastOnly,
      BodyPhrase.canonical_table body]
  | .subQuery select labels n => by
    simp only [FieldPhrase.canonical, FieldPhrase.field, lastLabel_lastOnly,
      SelectPhrase.canonical_select select]

theorem fieldsOf_canonical : (fs : List FieldPhrase) → fieldsOf (canonicalFields fs) = fieldsOf fs
  | [] => rfl
  | f :: fs => by
    rw [canonicalFields, fieldsOf, fieldsOf, FieldPhrase.canonical_field f, fieldsOf_canonical fs]

theorem ClausePhrase.canonical_condition? (f : Filter) :
    (c : ClausePhrase) → c.canonical.condition? f = c.condition? f
  | .filter g keyword chain => by
    simp only [ClausePhrase.canonical, ClausePhrase.condition?, ChainPhrase.canonical_expr chain]
  | .groupBy keyword front last => rfl
  | .orderBy keyword front last => rfl
  | .page p keyword value => rfl

theorem conditionOf_canonical (f : Filter) :
    (cs : List ClausePhrase) → conditionOf f (canonicalClauses cs) = conditionOf f cs
  | [] => rfl
  | c :: cs => by
    rw [canonicalClauses, conditionOf, conditionOf, ClausePhrase.canonical_condition? f c,
      conditionOf_canonical f cs]

theorem ChainPhrase.canonical_expr : (chain : ChainPhrase) → chain.canonical.expr = chain.expr
  | .last negation test => by
    rw [ChainPhrase.canonical, ChainPhrase.expr, ChainPhrase.expr, TestPhrase.canonical_expr test]
  | .link negation test op rest => by
    rw [ChainPhrase.canonical, ChainPhrase.expr, ChainPhrase.expr, TestPhrase.canonical_expr test,
      ChainPhrase.canonical_expr rest]

theorem TestPhrase.canonical_expr : (test : TestPhrase) → test.canonical.expr = test.expr
  | .compare left op right => rfl
  | .between subject negation keyword low andKeyword high => by
    simp only [TestPhrase.canonical, TestPhrase.expr, plainNot_isSome]
  | .among subject negation keyword select => by
    simp only [TestPhrase.canonical, TestPhrase.expr, plainNot_isSome,
      SelectPhrase.canonical_select select]
  | .paren inner => by
    rw [TestPhrase.canonical, TestPhrase.expr, TestPhrase.expr, ChainPhrase.canonical_expr inner]

end

/- Canonical phrases are valid. -/

variable {once : Bool}

theorem lastOnly_valid (labels : List (Nat × LabelPhrase)) :
    LabelsValid once (lastOnly labels) := by
  intro _
  cases h : labels.getLast? <;> simp [lastOnly, h]

theorem FieldPhrase.canonical_first (f : FieldPhrase) : f.canonical.first = f.first := by
  cases f <;> simp [canonical, first]

theorem TestPhrase.canonical_subject? (test : TestPhrase) :
    test.canonical.subject? = test.subject? := by
  cases test <;> simp [canonical, subject?]

theorem ClausePhrase.continuedBy_comma (c : ClausePhrase) : c.continuedBy .comma = c.lists := by
  cases c with
  | filter f keyword chain => rfl
  | groupBy keyword front last => rfl
  | orderBy keyword front last => rfl
  | page p keyword value => rfl

theorem endsBefore_comma {cs : List ClausePhrase} :
    EndsBefore .comma cs ↔ endsInList cs = false := by
  have hc : lastContinuedBy .comma cs = endsInList cs := by
    simp only [lastContinuedBy, endsInList, ClausePhrase.continuedBy_comma]
  have hk : Token.clause? .comma = none := rfl
  simp [EndsBefore, hc, hk]

theorem clauseOf_eq_none {k : Clause} {cs : List ClausePhrase} :
    clauseOf k cs = none ↔ ∀ c ∈ cs, c.kind ≠ k := by
  simp [clauseOf]

theorem ClausePhrase.lists_iff (c : ClausePhrase) : c.lists = true ↔ c.kind ∈ listKinds := by
  cases c <;> simp [lists, kind, listKinds]

theorem arranged_of_endsInList {cs : List ClausePhrase} (h : endsInList (arranged cs) = true) :
    (∀ c ∈ cs, c.lists = true) ∧
      arranged cs = (clauseOf .orderBy cs).toList ++ (clauseOf .groupBy cs).toList := by
  let rest := otherKinds.flatMap fun k => (clauseOf k cs).toList
  have hsplit : arranged cs =
      (clauseOf .orderBy cs).toList ++ (clauseOf .groupBy cs).toList ++ rest := by
    simp [arranged, clauseOrder, listKinds, rest]
  have hrest : rest = [] := by
    rcases List.eq_nil_or_concat rest with hr | ⟨front, last, hr⟩
    · exact hr
    · obtain ⟨k, hk, hm⟩ := List.mem_flatMap.1 (show last ∈ rest by simp [hr])
      have hlists : last.lists = true := by simpa [hsplit, hr, endsInList] using h
      rw [ClausePhrase.lists_iff, clauseOf_kind (Option.mem_toList.1 hm)] at hlists
      have hdisjoint : ∀ k ∈ otherKinds, k ∉ listKinds := by decide
      exact absurd hlists (hdisjoint k hk)
  refine ⟨fun c hc => ?_, by rw [hsplit, hrest, List.append_nil]⟩
  rw [ClausePhrase.lists_iff]
  rcases List.mem_append.1 (mem_clauseOrder c.kind) with hk | hk
  · exact hk
  · cases hf : clauseOf c.kind cs with
    | none => exact absurd rfl (clauseOf_eq_none.1 hf c hc)
    | some d =>
      have hd : d ∈ rest := List.mem_flatMap.2 ⟨c.kind, hk, by simp [hf]⟩
      simp [hrest] at hd

theorem eq_singleton_of_kind {k : Clause} {cs : List ClausePhrase}
    (hn : (cs.map ClausePhrase.kind).Nodup) (hk : ∀ c ∈ cs, c.kind = k) (hne : cs ≠ []) :
    ∃ c, cs = [c] := by
  cases cs with
  | nil => exact absurd rfl hne
  | cons c cs =>
    cases cs with
    | nil => exact ⟨c, rfl⟩
    | cons d cs =>
      have hcd : c.kind = d.kind := (hk c (by simp)).trans (hk d (by simp)).symm
      simp [hcd] at hn

theorem ClausePhrase.not_comma_of_lists {c : ClausePhrase} {t : Token} (hl : c.lists = true)
    (h : c.continuedBy t = false) : t.isSymbol "," = false := by
  cases c with
  | filter f keyword chain => simp [lists] at hl
  | groupBy keyword front last => exact h
  | orderBy keyword front last => exact (Bool.or_eq_false_iff.1 h).1
  | page p keyword value => simp [lists] at hl

/-- A list that ends before a token still does so when the clauses are put in order. -/
theorem endsBefore_arranged {cs : List ClausePhrase} (hn : (cs.map ClausePhrase.kind).Nodup)
    (hl : endsInList (arranged cs) = true) {t : Token} (h : EndsBefore t cs) :
    EndsBefore t (arranged cs) := by
  obtain ⟨hall, harr⟩ := arranged_of_endsInList hl
  refine ⟨h.1, ?_⟩
  cases hg : clauseOf .groupBy cs with
  | none =>
    -- Then all of them are one `order by`, and order changes nothing.
    have hk : ∀ c ∈ cs, c.kind = .orderBy := by
      intro c hc
      have hm := (ClausePhrase.lists_iff c).1 (hall c hc)
      have hno := clauseOf_eq_none.1 hg c hc
      simpa [listKinds, hno] using hm
    have hne : cs ≠ [] := by
      rintro rfl
      exact absurd hl (by decide)
    obtain ⟨c, rfl⟩ := eq_singleton_of_kind hn hk hne
    have hc : clauseOf .orderBy [c] = some c := by simp [clauseOf, hk c (by simp)]
    rw [harr, hg, hc]
    exact h.2
  | some g =>
    obtain ⟨c, hc⟩ : ∃ c, cs.getLast? = some c := by
      cases hlast : cs.getLast? with
      | none =>
        rw [List.getLast?_eq_none_iff] at hlast
        simp [hlast, clauseOf] at hg
      | some c => exact ⟨c, rfl⟩
    have hcont : c.continuedBy t = false := by simpa [lastContinuedBy, hc] using h.2
    have hcomma := ClausePhrase.not_comma_of_lists (hall c (List.mem_of_getLast? hc)) hcont
    have hkind := clauseOf_kind hg
    cases g with
    | groupBy keyword front last =>
      simp [harr, hg, lastContinuedBy, ClausePhrase.continuedBy, hcomma]
    | _ => simp [ClausePhrase.kind] at hkind

theorem ClausePhrase.canonical_continuedBy (c : ClausePhrase) (t : Token) :
    c.canonical.continuedBy t = c.continuedBy t := by
  cases c <;> rfl

theorem endsBefore_canonicalClauses {cs : List ClausePhrase} {t : Token} :
    EndsBefore t (canonicalClauses cs) ↔ EndsBefore t cs := by
  have hl : lastContinuedBy t (canonicalClauses cs) = lastContinuedBy t cs := by
    rw [lastContinuedBy, lastContinuedBy, canonicalClauses_eq, List.getLast?_map]
    cases cs.getLast? with
    | none => rfl
    | some c => exact c.canonical_continuedBy t
  rw [EndsBefore, EndsBefore, hl]

theorem canonicalClauses_kinds (cs : List ClausePhrase) :
    (canonicalClauses cs).map ClausePhrase.kind = cs.map ClausePhrase.kind := by
  simp [canonicalClauses_eq, ClausePhrase.canonical_kind]

theorem endsInList_of_arranged {cs : List ClausePhrase} (h : endsInList (arranged cs) = true) :
    endsInList cs = true := by
  rcases List.eq_nil_or_concat cs with rfl | ⟨front, last, rfl⟩
  · exact absurd h (by decide)
  · simpa [endsInList] using (arranged_of_endsInList h).1 last (by simp)

theorem endsBefore_of_endsInList {cs : List ClausePhrase} {n : Nat} {t : Token}
    (hl : endsInList cs = true) (h : EndsBefore (if n = 0 then t else .comma) cs) :
    EndsBefore t cs := by
  by_cases hn : n = 0
  · rwa [if_pos hn] at h
  · rw [if_neg hn, endsBefore_comma, hl] at h
    cases h

/-- One comma follows the clauses, unless it would go on with them. -/
theorem endsBefore_arranged_or_comma {cs : List ClausePhrase}
    (hn : (cs.map ClausePhrase.kind).Nodup) {n : Nat} {t : Token}
    (h : EndsBefore (if n = 0 then t else .comma) cs) :
    EndsBefore (if (if endsInList (arranged cs) then 0 else 1) = 0 then t else .comma)
      (arranged cs) := by
  by_cases hl : endsInList (arranged cs) = true
  · rw [if_pos hl, if_pos rfl]
    exact endsBefore_arranged hn hl (endsBefore_of_endsInList (endsInList_of_arranged hl) h)
  · rw [if_neg hl, if_neg Nat.one_ne_zero, endsBefore_comma]
    simpa using hl

theorem FieldPhrase.canonical_fits {f : FieldPhrase} {t : Token} (hv : f.Valid once)
    (h : f.Fits t) : f.canonical.Fits t := by
  cases f with
  | column name labels n => trivial
  | subQuery select labels n => trivial
  | relation name labels gap body n =>
    obtain ⟨single, k, fields, clauses⟩ := body
    have hn : ((canonicalClauses clauses).map ClausePhrase.kind).Nodup := by
      rw [canonicalClauses_kinds]
      exact hv.2.2.2.2
    exact endsBefore_arranged_or_comma hn (endsBefore_canonicalClauses.2 h)

theorem canonicalFields_fit {fs : List FieldPhrase} {t : Token} (hv : FieldsValid once fs)
    (h : FieldsFit t fs) : FieldsFit t (canonicalFields fs) := by
  induction fs with
  | nil => trivial
  | cons f fs ih =>
    cases fs with
    | nil => exact FieldPhrase.canonical_fits hv.1 h
    | cons g fs =>
      refine ⟨?_, ih hv.2 h.2⟩
      rw [FieldPhrase.canonical_first]
      exact FieldPhrase.canonical_fits hv.1 h.1

mutual

theorem SelectPhrase.canonical_valid :
    (c : SelectPhrase) → c.Valid once → c.canonical.Valid once
  | ⟨_, _, _, _, body⟩, h => ⟨h.1, BodyPhrase.canonical_valid body h.2⟩

theorem BodyPhrase.canonical_valid :
    (body : BodyPhrase) → body.Valid once → body.canonical.Valid once
  | ⟨single, n, fields, clauses⟩, h => by
    refine ⟨canonicalFields_valid fields h.1, canonicalFields_fit h.1 h.2.1, ?_, arranged_nodup _⟩
    have hc := canonicalClauses_valid clauses h.2.2.1
    rw [ClausesValid_iff] at hc ⊢
    exact fun c hm => hc c (clauseOf_mem (mem_arranged.1 hm))

theorem FieldPhrase.canonical_valid : (f : FieldPhrase) → f.Valid once → f.canonical.Valid once
  | .column _ labels _, _ => lastOnly_valid labels
  | .relation _ labels _ body _, h => ⟨lastOnly_valid labels, BodyPhrase.canonical_valid body h.2⟩
  | .subQuery select labels _, h =>
    ⟨lastOnly_valid labels, SelectPhrase.canonical_valid select h.2⟩

theorem canonicalFields_valid :
    (fs : List FieldPhrase) → FieldsValid once fs → FieldsValid once (canonicalFields fs)
  | [], _ => trivial
  | f :: fs, h => ⟨FieldPhrase.canonical_valid f h.1, canonicalFields_valid fs h.2⟩

theorem ClausePhrase.canonical_valid : (c : ClausePhrase) → c.Valid once → c.canonical.Valid once
  | .filter _ _ chain, h => ChainPhrase.canonical_valid chain h
  | .groupBy _ _ _, _ => trivial
  | .orderBy _ _ _, _ => trivial
  | .page _ _ _, _ => trivial

theorem canonicalClauses_valid :
    (cs : List ClausePhrase) → ClausesValid once cs → ClausesValid once (canonicalClauses cs)
  | [], _ => trivial
  | c :: cs, h => ⟨ClausePhrase.canonical_valid c h.1, canonicalClauses_valid cs h.2⟩

theorem ChainPhrase.canonical_valid :
    (chain : ChainPhrase) → chain.Valid once → chain.canonical.Valid once
  | .last negation test, h => by
    refine ⟨?_, TestPhrase.canonical_valid test h.2⟩
    rw [TestPhrase.canonical_subject?]
    exact h.1
  | .link negation test op rest, h => by
    refine ⟨?_, TestPhrase.canonical_valid test h.2.1, ChainPhrase.canonical_valid rest h.2.2⟩
    rw [TestPhrase.canonical_subject?]
    exact h.1

theorem TestPhrase.canonical_valid :
    (test : TestPhrase) → test.Valid once → test.canonical.Valid once
  | .compare _ _ _, _ => trivial
  | .between _ _ _ _ _ _, _ => trivial
  | .among _ _ _ select, h => SelectPhrase.canonical_valid select h
  | .paren inner, h => ChainPhrase.canonical_valid inner h

end

end BracketQuery
