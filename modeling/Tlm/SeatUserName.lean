import Tlm.ConfigConversions
import Tlm.Seat

/-!
# The default user's name (`tlm-seat.c`)

`_build_user_name` walks through a template with a pointer and takes one character
at a time, or two behind a `%`. What it tests for the end is the character it has come
to; the one behind a `%` is taken without a test. So a `%` at the very end takes the
terminator with it, and the walk goes on in whatever lies behind the template.

`buildUserName_iff` is the result: the walk keeps to the template exactly when no `%` is
left over at its end, and the name is the one that was asked for if, besides, the seat's
number is a `gint` or is not asked for.
-/

namespace Tlm

/-! ## Templates -/

/-- A text with the sequence `%c` replaced by `f c`, and a `%` left over at the end
dropped. -/
def expandPercent (f : Char → List Char) : List Char → List Char
  | [] => []
  | c :: rest =>
    if c = '%' then
      match rest with
      | [] => []
      | d :: rest => f d ++ expandPercent f rest
    else c :: expandPercent f rest

/-- The characters of the sequences of a text. -/
def percentSequences : List Char → List Char
  | [] => []
  | c :: rest =>
    if c = '%' then
      match rest with
      | [] => []
      | d :: rest => d :: percentSequences rest
    else percentSequences rest

/-- Is a `%` left over at the end? -/
def danglingPercent : List Char → Bool
  | [] => false
  | c :: rest =>
    if c = '%' then
      match rest with
      | [] => true
      | _ :: rest => danglingPercent rest
    else danglingPercent rest

section

variable {f g : Char → List Char} {s : List Char}

theorem expandPercent_sequence (f : Char → List Char) (d : Char) (s : List Char) :
    expandPercent f ('%' :: d :: s) = f d ++ expandPercent f s := rfl

theorem expandPercent_cons_of_ne (f : Char → List Char) {c : Char} (h : c ≠ '%') (s : List Char) :
    expandPercent f (c :: s) = c :: expandPercent f s := by
  rw [expandPercent.eq_def]
  exact if_neg h

theorem expandPercent_congr (h : ∀ c ∈ percentSequences s, f c = g c) :
    expandPercent f s = expandPercent g s := by
  fun_induction percentSequences s with
  | case1 => rfl
  | case2 => rfl
  | case3 d rest ih =>
    simp only [List.mem_cons, forall_eq_or_imp] at h
    rw [expandPercent_sequence, expandPercent_sequence, h.1, ih h.2]
  | case4 c rest hc ih =>
    rw [expandPercent_cons_of_ne f hc, expandPercent_cons_of_ne g hc, ih h]

/-- Two ways of writing one sequence that give the same text, and whose lengths agree,
agree on it. -/
theorem eq_of_expandPercent_eq {d : Char} (hd : d ∈ percentSequences s)
    (hlen : ∀ c, (f c).length = (g c).length) (h : expandPercent f s = expandPercent g s) :
    f d = g d := by
  fun_induction percentSequences s with
  | case1 => exact absurd hd List.not_mem_nil
  | case2 => exact absurd hd List.not_mem_nil
  | case3 c rest ih =>
    rw [expandPercent_sequence, expandPercent_sequence] at h
    obtain ⟨hc, hrest⟩ := List.append_inj h (hlen c)
    obtain rfl | hd := List.mem_cons.mp hd
    · exact hc
    · exact ih hd hrest
  | case4 c rest hc ih =>
    rw [expandPercent_cons_of_ne f hc, expandPercent_cons_of_ne g hc] at h
    exact ih hd (List.tail_eq_of_cons_eq h)

/-- Of two ways of writing, one that is nowhere longer gives a text that is not longer, and
is shorter if it is used where it is shorter. -/
theorem length_expandPercent_le (hlen : ∀ c, (f c).length ≤ (g c).length) :
    (expandPercent f s).length ≤ (expandPercent g s).length := by
  fun_induction expandPercent f s with
  | case1 => exact Nat.zero_le _
  | case2 => exact Nat.zero_le _
  | case3 d rest ih =>
    have hd := hlen d
    rw [expandPercent_sequence, List.length_append, List.length_append]
    omega
  | case4 c rest hc ih =>
    rw [expandPercent_cons_of_ne g hc, List.length_cons, List.length_cons]
    omega

theorem length_expandPercent_lt {d : Char} (hd : d ∈ percentSequences s)
    (hlen : ∀ c, (f c).length ≤ (g c).length) (hlt : (f d).length < (g d).length) :
    (expandPercent f s).length < (expandPercent g s).length := by
  fun_induction percentSequences s with
  | case1 => exact absurd hd List.not_mem_nil
  | case2 => exact absurd hd List.not_mem_nil
  | case3 c rest ih =>
    have hrest : (expandPercent f rest).length ≤ (expandPercent g rest).length :=
      length_expandPercent_le hlen
    have hc := hlen c
    rw [expandPercent_sequence, expandPercent_sequence, List.length_append, List.length_append]
    obtain rfl | hd := List.mem_cons.mp hd
    · omega
    · have := ih hd
      omega
  | case4 c rest hc ih =>
    have := ih hd
    rw [expandPercent_cons_of_ne f hc, expandPercent_cons_of_ne g hc, List.length_cons,
      List.length_cons]
    omega

end

/-! ## The walk -/

/-- What stands for a sequence: the seat's number, the seat's id, or nothing. -/
def sequenceText (number seatId : List Char) (c : Char) : List Char :=
  if c = 'S' then number else if c = 'I' then seatId else []

/-- What a walk over a template comes to. -/
structure TemplateWalk where
  /-- the positions read, in order -/
  touched : List ℕ
  /-- `str` -/
  out : List Char
  /-- a `NUL` was found to stop at; otherwise the walk has left the memory -/
  stopped : Bool
  deriving DecidableEq, Repr

/-- Some positions and some text in front of a walk. -/
def TemplateWalk.after (w : TemplateWalk) (positions : List ℕ) (text : List Char) : TemplateWalk :=
  { w with touched := positions ++ w.touched, out := text ++ w.out }

/-- The loop of `_build_user_name`, with `pptr` at position `i` and the memory from there
on. -/
def walkTemplate (number seatId : List Char) (i : ℕ) : List Char → TemplateWalk
  | [] => ⟨[i], [], false⟩
  | c :: rest =>
    if c = '\x00' then ⟨[i], [], true⟩
    else if c = '%' then
      match rest with
      | [] => ⟨[i, i + 1], [], false⟩
      | d :: rest =>
        (walkTemplate number seatId (i + 2) rest).after [i, i + 1] (sequenceText number seatId d)
    else (walkTemplate number seatId (i + 1) rest).after [i] [c]

theorem walkTemplate_nul (number seatId : List Char) (i : ℕ) (rest : List Char) :
    walkTemplate number seatId i ('\x00' :: rest) = ⟨[i], [], true⟩ := by
  rw [walkTemplate.eq_def]
  exact if_pos rfl

theorem walkTemplate_sequence (number seatId : List Char) (i : ℕ) (d : Char) (rest : List Char) :
    walkTemplate number seatId i ('%' :: d :: rest) =
      (walkTemplate number seatId (i + 2) rest).after [i, i + 1] (sequenceText number seatId d) := rfl

theorem walkTemplate_cons_of_ne (number seatId : List Char) (i : ℕ) {c : Char} (hnul : c ≠ '\x00')
    (h : c ≠ '%') (rest : List Char) :
    walkTemplate number seatId i (c :: rest) =
      (walkTemplate number seatId (i + 1) rest).after [i] [c] := by
  rw [walkTemplate.eq_def]
  exact (if_neg hnul).trans (if_neg h)

/-- `_build_user_name` on a template in memory: its characters, the terminator, and what
lies behind. -/
def buildUserNameIn (template beyond : List Char) (seatId : String) : TemplateWalk :=
  walkTemplate (toString (Seat.seatNumber seatId)).toList seatId.toList 0 (template ++ '\x00' :: beyond)

/-- The decimal number that follows the prefix `seat`, however large, and `0` if there is
none. -/
def numberOfSeat (seatId : String) : ℤ :=
  match seatId.toList with
  | 's' :: 'e' :: 'a' :: 't' :: rest => ((scanNumeral rest).map denoted).getD 0
  | _ => 0

/-- The name that is asked for. -/
def specifiedName (template : List Char) (seatId : String) : List Char :=
  expandPercent (sequenceText (toString (numberOfSeat seatId)).toList seatId.toList) template

/-- The walk stops, without having read or gone beyond the terminator, and the name is the
one that is asked for. -/
structure BuildsName (template beyond : List Char) (seatId : String) : Prop where
  stopped : (buildUserNameIn template beyond seatId).stopped = true
  inside : ∀ i ∈ (buildUserNameIn template beyond seatId).touched, i ≤ template.length
  out : (buildUserNameIn template beyond seatId).out = specifiedName template seatId

section

variable {number seatId template beyond : List Char} {i : ℕ}

/-- **Without a `%` left over** the walk stops at the terminator. -/
theorem walkTemplate_of_not_dangling (number seatId beyond : List Char) (i : ℕ)
    (hnul : '\x00' ∉ template) (h : danglingPercent template = false) :
    (walkTemplate number seatId i (template ++ '\x00' :: beyond)).stopped = true ∧
      (∀ j ∈ (walkTemplate number seatId i (template ++ '\x00' :: beyond)).touched,
        j ≤ i + template.length) ∧
      (walkTemplate number seatId i (template ++ '\x00' :: beyond)).out =
        expandPercent (sequenceText number seatId) template := by
  fun_induction danglingPercent template generalizing i with
  | case1 =>
    rw [List.nil_append, walkTemplate_nul]
    refine ⟨rfl, fun j hj => ?_, rfl⟩
    rw [List.mem_singleton.mp hj]
    exact Nat.le_refl i
  | case2 => exact absurd h (by decide)
  | case3 d rest ih =>
    simp only [List.mem_cons, not_or] at hnul
    obtain ⟨hstop, hin, hout⟩ := ih (i := i + 2) hnul.2.2 h
    rw [List.cons_append, List.cons_append, walkTemplate_sequence, expandPercent_sequence]
    refine ⟨hstop, fun j hj => ?_, congrArg (sequenceText number seatId d ++ ·) hout⟩
    simp only [TemplateWalk.after, List.cons_append, List.nil_append, List.mem_cons] at hj
    simp only [List.length_cons]
    obtain rfl | rfl | hj := hj
    · omega
    · omega
    · have := hin j hj
      omega
  | case4 c rest hc ih =>
    simp only [List.mem_cons, not_or] at hnul
    obtain ⟨hstop, hin, hout⟩ := ih (i := i + 1) hnul.2 h
    rw [List.cons_append, walkTemplate_cons_of_ne _ _ _ (Ne.symm hnul.1) hc,
      expandPercent_cons_of_ne _ hc]
    refine ⟨hstop, fun j hj => ?_, congrArg (c :: ·) hout⟩
    simp only [TemplateWalk.after, List.cons_append, List.nil_append, List.mem_cons] at hj
    rw [List.length_cons]
    obtain rfl | hj := hj
    · omega
    · have := hin j hj
      omega

/-- The first position a walk reads is the one it is at. -/
theorem mem_touched_walkTemplate (s : List Char) :
    i ∈ (walkTemplate number seatId i s).touched := by
  rcases s with _ | ⟨c, rest⟩
  · exact List.mem_singleton_self i
  · rw [walkTemplate.eq_def]
    dsimp only
    split
    · exact List.mem_singleton_self i
    · split
      · cases rest <;> exact List.mem_cons_self
      · exact List.mem_cons_self

/-- **A `%` left over** takes the terminator for the character of its sequence. -/
theorem touched_of_dangling (hnul : '\x00' ∉ template) (h : danglingPercent template = true) :
    i + template.length + 1 ∈
      (walkTemplate number seatId i (template ++ '\x00' :: beyond)).touched := by
  fun_induction danglingPercent template generalizing i with
  | case1 => exact absurd h (by decide)
  | case2 =>
    rw [List.cons_append, List.nil_append, walkTemplate_sequence]
    exact List.mem_append_right _ (mem_touched_walkTemplate beyond)
  | case3 d rest ih =>
    simp only [List.mem_cons, not_or] at hnul
    have hmem := ih (i := i + 2) hnul.2.2 h
    rw [List.cons_append, List.cons_append, walkTemplate_sequence, List.length_cons, List.length_cons]
    have hpos : i + (rest.length + 1 + 1) + 1 = i + 2 + rest.length + 1 := by omega
    rw [hpos]
    exact List.mem_append_right _ hmem
  | case4 c rest hc ih =>
    simp only [List.mem_cons, not_or] at hnul
    have hmem := ih (i := i + 1) hnul.2 h
    rw [List.cons_append, walkTemplate_cons_of_ne _ _ _ (Ne.symm hnul.1) hc, List.length_cons]
    have hpos : i + (rest.length + 1) + 1 = i + 1 + rest.length + 1 := by omega
    rw [hpos]
    exact List.mem_append_right _ hmem

end

/-! ## The seat's number -/

/-- The seat's number is a `gint`. -/
def NumberFits (seatId : String) : Prop :=
  -2 ^ 31 ≤ numberOfSeat seatId ∧ numberOfSeat seatId ≤ 2 ^ 31 - 1

theorem atoi_eq_iff (cs : List Char) :
    Seat.atoi cs = ((scanNumeral cs).map denoted).getD 0 ↔
      -2 ^ 31 ≤ ((scanNumeral cs).map denoted).getD 0 ∧
        ((scanNumeral cs).map denoted).getD 0 ≤ 2 ^ 31 - 1 := by
  unfold Seat.atoi
  rcases scanNumeral cs with _ | ⟨neg, n⟩
  · decide
  · simp only [Option.map_some, Option.getD_some]
    constructor
    · -- what is cut down to 32 bits is a `gint`
      intro h
      rw [← h]
      have hlo := @Int.le_bmod (if neg then max (-(n : ℤ)) (-2 ^ 63) else min (n : ℤ) (2 ^ 63 - 1))
        (2 ^ 32) (by decide)
      have hhi := @Int.bmod_lt (if neg then max (-(n : ℤ)) (-2 ^ 63) else min (n : ℤ) (2 ^ 63 - 1))
        (2 ^ 32) (by decide)
      omega
    · rintro ⟨hlo, hhi⟩
      exact bmod_saturated hlo hhi

theorem seatNumber_eq_iff (seatId : String) :
    Seat.seatNumber seatId = numberOfSeat seatId ↔ NumberFits seatId := by
  unfold NumberFits
  by_cases hseat : ∃ rest, seatId.toList = 's' :: 'e' :: 'a' :: 't' :: rest
  · obtain ⟨rest, hrest⟩ := hseat
    simp only [Seat.seatNumber, numberOfSeat, hrest]
    exact atoi_eq_iff rest
  · have hcode : Seat.seatNumber seatId = 0 := by
      unfold Seat.seatNumber
      split
      · exact absurd ⟨_, ‹_›⟩ hseat
      · rfl
    have hlaw : numberOfSeat seatId = 0 := by
      unfold numberOfSeat
      split
      · exact absurd ⟨_, ‹_›⟩ hseat
      · rfl
    rw [hcode, hlaw]
    decide

/-- Different numbers are printed differently. -/
theorem toString_int_injective {v w : ℤ} (h : toString v = toString w) : v = w := by
  obtain ⟨p, hp, rfl⟩ := scanNumeral_intRepr v
  obtain ⟨q, hq, rfl⟩ := scanNumeral_intRepr w
  have hrepr : (denoted p).repr = (denoted q).repr := h
  rw [hrepr, hq] at hp
  rw [Option.some.inj hp]

/-! ## The name -/

section

variable {template beyond : List Char} {seatId : String}

/-- The walk's name is the one the seat's model works with. -/
theorem buildUserNameIn_out (hnul : '\x00' ∉ template) (h : danglingPercent template = false) :
    String.ofList (buildUserNameIn template beyond seatId).out =
      Seat.buildUserName (String.ofList template) seatId := by
  obtain ⟨-, -, hout⟩ := walkTemplate_of_not_dangling
    (toString (Seat.seatNumber seatId)).toList seatId.toList beyond 0 hnul h
  rw [buildUserNameIn, hout, Seat.buildUserName, String.toList_ofList]
  congr 1
  clear hout hnul h
  fun_induction Seat.expandTemplate seatId template with
  | case1 => rfl
  | case2 => rfl
  | case3 rest ih => exact congrArg (_ ++ ·) ih
  | case4 rest ih => exact congrArg (_ ++ ·) ih
  | case5 d rest hS hI ih =>
    rw [expandPercent_sequence, ih, sequenceText, if_neg hS, if_neg hI]
    rfl
  | case6 c rest hend _ _ hseq ih =>
    have hc : c ≠ '%' := by
      intro hc
      cases rest with
      | nil => exact hend hc rfl
      | cons d rest => exact hseq d rest hc rfl
    rw [expandPercent_cons_of_ne _ hc, ih]

/-- If the seat's number is asked for, a wrong one shows. -/
theorem eq_of_out_eq {v w : ℤ} (hS : 'S' ∈ percentSequences template)
    (h : expandPercent (sequenceText (toString v).toList seatId.toList) template =
      expandPercent (sequenceText (toString w).toList seatId.toList) template) : v = w := by
  have hle : ∀ {x y : List Char}, x.length ≤ y.length →
      ∀ c, (sequenceText x seatId.toList c).length ≤ (sequenceText y seatId.toList c).length := by
    intro x y hxy c
    unfold sequenceText
    split
    · exact hxy
    · exact Nat.le_refl _
  have hlt : ∀ {x y : List Char},
      expandPercent (sequenceText x seatId.toList) template =
        expandPercent (sequenceText y seatId.toList) template → y.length ≤ x.length := by
    intro x y hxy
    by_contra hnot
    have := length_expandPercent_lt (f := sequenceText x seatId.toList)
      (g := sequenceText y seatId.toList) hS (hle (by omega)) (Nat.not_le.mp hnot)
    rw [hxy] at this
    exact Nat.lt_irrefl _ this
  have hlen : (toString v).toList.length = (toString w).toList.length :=
    Nat.le_antisymm (hlt h.symm) (hlt h)
  have htext := eq_of_expandPercent_eq hS
    (fun c => Nat.le_antisymm (hle (Nat.le_of_eq hlen) c) (hle (Nat.le_of_eq hlen.symm) c)) h
  exact toString_int_injective (String.toList_inj.mp htext)

/-- **When the name is built as asked**: when no `%` is left over at the end of the
template, and the seat's number is a `gint` or the template does not ask for it. -/
theorem buildsName_iff (hnul : '\x00' ∉ template) (beyond : List Char) (seatId : String) :
    BuildsName template beyond seatId ↔
      danglingPercent template = false ∧
        (NumberFits seatId ∨ 'S' ∉ percentSequences template) := by
  cases hdangling : danglingPercent template with
  | true =>
    refine ⟨fun h => ?_, fun h => absurd h.1 (by decide)⟩
    have hbeyond := h.inside _ (touched_of_dangling hnul hdangling)
    omega
  | false =>
    obtain ⟨hstop, hin, hout⟩ := walkTemplate_of_not_dangling
      (toString (Seat.seatNumber seatId)).toList seatId.toList beyond 0 hnul hdangling
    have hname : (buildUserNameIn template beyond seatId).out = specifiedName template seatId ↔
        NumberFits seatId ∨ 'S' ∉ percentSequences template := by
      rw [buildUserNameIn, hout, specifiedName, ← seatNumber_eq_iff]
      constructor
      · intro h
        by_cases hS : 'S' ∈ percentSequences template
        · exact .inl (eq_of_out_eq hS h)
        · exact .inr hS
      · rintro (hnum | hS)
        · rw [hnum]
        · apply expandPercent_congr
          intro c hc
          have hne : c ≠ 'S' := fun h => hS (h ▸ hc)
          rw [sequenceText, sequenceText, if_neg hne, if_neg hne]
    simp only [true_and]
    rw [← hname]
    refine ⟨fun h => h.out, fun h => ⟨hstop, fun i hi => ?_, h⟩⟩
    have := hin i hi
    omega

end

/-- `guest%S` on `seat1`. -/
theorem buildsName_guest :
    BuildsName ['g', 'u', 'e', 's', 't', '%', 'S'] ['x', 'y', 'z'] "seat1" := by
  have hnumber : numberOfSeat "seat1" = 1 := by decide
  refine (buildsName_iff (by decide) _ _).mpr ⟨by decide, .inl ?_⟩
  rw [NumberFits, hnumber]
  decide

/-- The template `50%` takes the walk past its terminator: the next character it copies is
one that does not belong to the template. -/
theorem percent_at_end_runs_on :
    buildUserNameIn "50%".toList "xyz\x00".toList "seat0" =
      ⟨[0, 1, 2, 3, 4, 5, 6, 7], "50xyz".toList, true⟩ ∧
    specifiedName "50%".toList "seat0" = "50".toList := by
  decide

end Tlm
