import BracketQuery.Proofs.CallArguments

/-! Qualifying twice. A text that got a scope holds a dot and is left alone from then on. If no
scope was put in, only blanks around commas have changed, and the same call is found again. -/
namespace BracketQuery.Sql
open Text (isBlank trimBlanks Tight)
variable {scope cs name args : List Char}

/- Texts in which no scope was put. -/

theorem isLiteralText_of_dot (h : '.' ∈ cs) : isLiteralText cs = true := by
  have hany : cs.any (fun c => c = '.' || c = '*') = true := List.any_eq_true.2 ⟨'.', h, rfl⟩
  simp [isLiteralText, hany]

theorem ink_intercalate {gap : List Char} (hgap : ∀ c ∈ gap, isBlank c = true)
    (ps : List (List Char)) :
    ink ((',' :: gap).intercalate ps) = [','].intercalate (ps.map ink) := by
  have hsep : ink (',' :: gap) = [','] := by
    have hcomma : isBlank ',' = false := by decide
    simpa [ink, hcomma] using hgap
  induction ps with
  | nil => rfl
  | cons p ps ih =>
    cases ps with
    | nil => simp
    | cons q ps =>
      rw [List.intercalate_cons_of_ne_nil (by simp), ink_append, ink_append, ih, hsep,
        List.map_cons (l := q :: ps), List.intercalate_cons_of_ne_nil (by simp)]

theorem Pieces.map {ps : List (List Char)} (h : Pieces ps) {f : List Char → List Char}
    (hf : ∀ p ∈ ps, ink (f p) = ink p) : Pieces (ps.map f) where
  ne_nil := by simpa using h.ne_nil
  uncut := by
    intro p hp
    obtain ⟨r, hr, rfl⟩ := List.mem_map.1 hp
    rw [← Level.uncut_ink (.outside 0), hf r hr, Level.uncut_ink (.outside 0)]
    exact h.uncut r hr
  closed := by
    intro p hp
    rw [← List.map_dropLast] at hp
    obtain ⟨r, hr, rfl⟩ := List.mem_map.1 hp
    rw [← Level.after_ink (.outside 0), hf r (List.dropLast_subset _ hr),
      Level.after_ink (.outside 0)]
    exact h.closed r hr

theorem arguments_respaced {f : List Char → List Char}
    (hink : ∀ a ∈ arguments args, ink (f a) = ink a) (htight : ∀ a ∈ arguments args, Tight (f a)) :
    arguments ([',', ' '].intercalate ((arguments args).map f)) = (arguments args).map f := by
  obtain ⟨ps, hps, rfl⟩ := exists_pieces args
  rw [arguments_eq hps] at hink htight ⊢
  have hpieces : Pieces ((ps.map trimBlanks).map f) :=
    (hps.map fun p _ => ink_trimBlanks p).map hink
  rw [hpieces.arguments isBlank_space, List.map_map]
  refine List.map_congr_left fun a ha => ?_
  exact (htight a ha).trim

theorem tight_of_mem_arguments {a : List Char} (ha : a ∈ arguments args) : Tight a := by
  obtain ⟨ps, hps, rfl⟩ := exists_pieces args
  rw [arguments_eq hps] at ha
  obtain ⟨p, -, rfl⟩ := List.mem_map.1 ha
  exact Text.tight_trimBlanks p

theorem ink_arguments (args : List Char) :
    [','].intercalate ((arguments args).map ink) = ink args := by
  obtain ⟨ps, hps, rfl⟩ := exists_pieces args
  have hmap : (ps.map trimBlanks).map ink = ps.map ink := by simp [ink_trimBlanks]
  rw [arguments_eq hps, hmap]
  exact (ink_intercalate (by simp) ps).symm

theorem dot_notMem_argument (hl : isLiteralText cs = false) (hc : call? cs = some (name, args))
    (h : '.' ∉ qualifiedText scope cs) : ∀ a ∈ arguments args, '.' ∉ qualifiedArgument scope a := by
  intro a ha hdot
  refine h ?_
  rw [qualifiedText_call _ hl hc]
  have hjoined : '.' ∈ [',', ' '].intercalate ((arguments args).map (qualifiedArgument scope)) :=
    mem_intercalate_iff.2 (.inl ⟨_, List.mem_map_of_mem ha, hdot⟩)
  simp [hjoined]

/-- Unless a scope is put in, only blanks change. -/
theorem ink_qualifiedText (h : '.' ∉ qualifiedText scope cs) :
    ink (qualifiedText scope cs) = ink cs := by
  induction cs using qualified_induction with
  | literal cs hl => rw [qualifiedText_literal _ hl]
  | name cs hl hc => simp [qualifiedText_name _ hl hc] at h
  | call cs name args hl hc ih =>
    have hargs : (arguments args).map (ink ∘ qualifiedArgument scope) =
        (arguments args).map ink := by
      refine List.map_congr_left fun a ha => ?_
      have hdot := dot_notMem_argument hl hc h a ha
      simp only [Function.comp_apply, qualifiedArgument] at hdot ⊢
      split
      · rfl
      · exact ih a ha (by simpa [*] using hdot)
    have hopen (cs : List Char) : ink ('(' :: cs) = '(' :: ink cs := ink_cons (by decide) cs
    rw [qualifiedText_call _ hl hc, (call?_eq_some_iff.1 hc).1]
    simp only [ink_append, hopen, ink_intercalate isBlank_space, List.map_map, hargs, ink_arguments]

theorem ink_qualifiedArgument {a : List Char} (h : '.' ∉ qualifiedArgument scope a) :
    ink (qualifiedArgument scope a) = ink a := by
  unfold qualifiedArgument at h ⊢
  split
  · rfl
  · exact ink_qualifiedText (by simpa [*] using h)

theorem tight_qualifiedText (ht : Tight cs) (h : '.' ∉ qualifiedText scope cs) :
    Tight (qualifiedText scope cs) := by
  induction cs using qualified_induction with
  | literal cs hl => rwa [qualifiedText_literal _ hl]
  | name cs hl hc => simp [qualifiedText_name _ hl hc] at h
  | call cs name args hl hc =>
    rw [qualifiedText_call _ hl hc]
    obtain ⟨rfl, hne, -⟩ := call?_eq_some_iff.1 hc
    constructor
    · intro c hfirst
      refine ht.first c ?_
      cases name with
      | nil => exact absurd rfl hne
      | cons d name => simpa using hfirst
    · intro c hlast
      have hc : c = ')' := by simpa [List.getLast?_append, List.getLast?_cons, eq_comm] using hlast
      rw [hc]
      decide

theorem tight_qualifiedArgument {a : List Char} (ht : Tight a)
    (h : '.' ∉ qualifiedArgument scope a) : Tight (qualifiedArgument scope a) := by
  unfold qualifiedArgument at h ⊢
  split
  · exact ht
  · exact tight_qualifiedText ht (by simpa [*] using h)

theorem qualifiedArgument_again {other a : List Char}
    (h : qualifiedText other (qualifiedText scope a) = qualifiedText scope a) :
    qualifiedArgument other (qualifiedArgument scope a) = qualifiedArgument scope a := by
  by_cases ha : (a.isEmpty || a.any isBlank) = true
  · simp only [qualifiedArgument, ha, if_true]
  · simp only [qualifiedArgument, ha, if_false, h, ite_self, Bool.false_eq_true]

/-- Qualifying the qualified text changes nothing. -/
theorem qualifiedText_again (scope other cs : List Char) :
    qualifiedText other (qualifiedText scope cs) = qualifiedText scope cs := by
  induction cs using qualified_induction with
  | literal cs hl => rw [qualifiedText_literal _ hl, qualifiedText_literal _ hl]
  | name cs hl hc =>
    rw [qualifiedText_name _ hl hc]
    exact qualifiedText_literal _ (isLiteralText_of_dot (by simp))
  | call cs name args hl hc ih =>
    cases hlit : isLiteralText (qualifiedText scope cs) with
    | true => exact qualifiedText_literal _ hlit
    | false =>
      have hdot : '.' ∉ qualifiedText scope cs := fun h => by
        simp [isLiteralText_of_dot h] at hlit
      have hargs := dot_notMem_argument hl hc hdot
      obtain ⟨-, hne, hname⟩ := call?_eq_some_iff.1 hc
      have hcall := call?_eq_some_iff.2 ⟨qualifiedText_call scope hl hc, hne, hname⟩
      have hagain : (arguments args).map (qualifiedArgument other ∘ qualifiedArgument scope) =
          (arguments args).map (qualifiedArgument scope) :=
        List.map_congr_left fun a ha => qualifiedArgument_again (ih a ha)
      rw [qualifiedText_call _ hlit hcall, arguments_respaced
          (fun a ha => ink_qualifiedArgument (hargs a ha))
          (fun a ha => tight_qualifiedArgument (tight_of_mem_arguments ha) (hargs a ha)),
        List.map_map, hagain, qualifiedText_call _ hl hc]

/-- A qualified text stays as it is, whatever scope it is qualified with again. -/
theorem qualify_qualify (text scope other : String) :
    qualify (qualify text scope) other = qualify text scope := by
  rw [qualify, qualify, String.toList_ofList, qualifiedText_again]

end BracketQuery.Sql
