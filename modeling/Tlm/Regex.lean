import Mathlib.Data.List.Basic
import Mathlib.Data.List.Count
import Mathlib.Data.Nat.Notation

/-!
# Backtracking regular expressions

The meaning of an expression is the way a backtracking matcher tries it: `run` gives
**all** ways to match at the start of the input, each as the input that is left, in the
order in which they are tried. An alternative tries its first branch first; a greedy
repetition goes on before it stops, a lazy one stops before it goes on. The match a
matcher reports is the first of the list (`matchAt`), empty ones left out where the
caller asks for that.

On top of it are the search for the leftmost match and the splitting of a text at its
matches, with the matched texts kept between the parts (`gaps`). A bound of the text's
length is enough for it (`splitFrom_eq`). Where every match counts, not all pieces do
exactly if some gap does not (`countP_split_lt_iff`).
-/

namespace Tlm

universe u

/-- A regular expression over some characters. -/
inductive Regex (α : Type u) : Type u where
  /-- one character of a class -/
  | cls (p : α → Bool)
  /-- one after the other -/
  | seq (r q : Regex α)
  /-- the first, else the second -/
  | alt (r q : Regex α)
  /-- any number of times, as many or as few as possible -/
  | star (greedy : Bool) (r : Regex α)

namespace Regex

variable {α : Type u}

/-- Repetition of a step, with a bound. A step that consumes nothing ends it. -/
def iterate (step : List α → List (List α)) (greedy : Bool) : ℕ → List α → List (List α)
  | 0, s => [s]
  | n + 1, s =>
    let more := (step s).flatMap fun rest =>
      if rest.length < s.length then iterate step greedy n rest else [rest]
    if greedy then more ++ [s] else s :: more

/-- What may be left of the input behind a match, in the order of trying. -/
def run : Regex α → List α → List (List α)
  | .cls _, [] => []
  | .cls p, a :: s => if p a then [s] else []
  | .seq r q, s => (r.run s).flatMap q.run
  | .alt r q, s => r.run s ++ q.run s
  | .star greedy r, s => iterate r.run greedy s.length s

/-- What is left behind the match at the start of the input; empty matches do not count. -/
def matchAt (r : Regex α) (s : List α) : Option (List α) :=
  (r.run s).find? fun rest => rest.length < s.length

/-- The leftmost match: what is before it, the match, and what is behind. -/
def search (r : Regex α) : List α → Option (List α × List α × List α)
  | [] => none
  | a :: s =>
    match r.matchAt (a :: s) with
    | some rest => some ([], (a :: s).take ((a :: s).length - rest.length), rest)
    | none => (r.search s).map fun (before, found, rest) => (a :: before, found, rest)

/-- The text cut at its matches, which are kept, at most so many times. -/
def splitFrom (r : Regex α) : ℕ → List α → List (List α)
  | 0, s => [s]
  | n + 1, s =>
    match r.search s with
    | none => [s]
    | some (before, found, rest) => before :: found :: r.splitFrom n rest

/-- The text cut at all its matches. Nothing comes of an empty text. -/
def split (r : Regex α) (s : List α) : List (List α) :=
  if s.isEmpty then [] else r.splitFrom s.length s

/-- What is left of the text outside its matches, cut at most so many times. -/
def gapsFrom (r : Regex α) : ℕ → List α → List (List α)
  | 0, s => [s]
  | n + 1, s =>
    match r.search s with
    | none => [s]
    | some (before, _, rest) => before :: r.gapsFrom n rest

/-- The parts before the first match, between two, and behind the last one. -/
def gaps (r : Regex α) (s : List α) : List (List α) :=
  if s.isEmpty then [] else r.gapsFrom s.length s

variable {r q : Regex α} {p : α → Bool} {s rest before found : List α} {a : α} {n : ℕ}

/-! ## Matching -/

theorem run_cls_cons : (cls p).run (a :: s) = if p a then [s] else [] := rfl

/-- **As few as possible.** A lazy repetition of a class up to a character that is not in
what it passes over: the first way through ends at the first such character. -/
theorem head?_lazy_until {p q : α → Bool} {e : List α} {d : α} (hd : q d = true)
    (he : ∀ c ∈ e, p c = true ∧ q c = false) (hn : e.length ≤ n) :
    ((iterate (cls p).run false n (e ++ d :: s)).flatMap (cls q).run).head? = some s := by
  induction e generalizing n with
  | nil =>
    cases n with
    | zero => simp [iterate, run, hd]
    | succ n => simp [iterate, run, hd]
  | cons c e ih =>
    obtain ⟨hp, hq⟩ := he c List.mem_cons_self
    cases n with
    | zero => exact absurd hn (by simp)
    | succ n =>
      have hrest := ih (fun x hx => he x (List.mem_cons_of_mem _ hx)) (Nat.le_of_succ_le_succ hn)
      simpa [iterate, run, hp, hq] using hrest

theorem matchAt_eq_of_head? (h : (r.run s).head? = some rest) (hlt : rest.length < s.length) :
    r.matchAt s = some rest := by
  obtain ⟨tail, htail⟩ := List.head?_eq_some_iff.mp h
  simp [matchAt, htail, hlt]

/-! ## Searching -/

theorem search_of_matchAt (hne : found ≠ []) (h : r.matchAt (found ++ rest) = some rest) :
    r.search (found ++ rest) = some ([], found, rest) := by
  have htake : (found ++ rest).take ((found ++ rest).length - rest.length) = found := by
    rw [List.length_append, Nat.add_sub_cancel, List.take_left]
  obtain ⟨a, s, rfl⟩ := List.exists_cons_of_ne_nil hne
  rw [List.cons_append] at h htake ⊢
  rw [search, h]
  dsimp only
  rw [htake]

theorem search_cons_of_none (h : r.matchAt (a :: s) = none) :
    r.search (a :: s) = (r.search s).map fun (before, found, rest) => (a :: before, found, rest) := by
  rw [search, h]

/-- A search finds a match right here, or goes on. -/
theorem search_cons_cases (h : r.search (a :: s) = some (before, found, rest)) :
    (r.matchAt (a :: s) = some rest ∧ before = []) ∨
      (r.matchAt (a :: s) = none ∧
        ∃ before', before = a :: before' ∧ r.search s = some (before', found, rest)) := by
  cases hmatch : r.matchAt (a :: s) with
  | some rest' =>
    rw [search, hmatch] at h
    simp only [Option.some.injEq, Prod.mk.injEq] at h
    obtain ⟨rfl, -, rfl⟩ := h
    exact .inl ⟨rfl, rfl⟩
  | none =>
    rw [search_cons_of_none hmatch] at h
    obtain ⟨⟨before', found', rest'⟩, hsearch, heq⟩ := Option.map_eq_some_iff.mp h
    simp only [Prod.mk.injEq] at heq
    obtain ⟨rfl, rfl, rfl⟩ := heq
    exact .inr ⟨rfl, before', rfl, hsearch⟩

/-- What is left behind a match is shorter. -/
theorem length_lt_of_search (h : r.search s = some (before, found, rest)) :
    rest.length < s.length := by
  induction s generalizing before with
  | nil => exact absurd h (by simp [search])
  | cons a s ih =>
    obtain ⟨hmatch, -⟩ | ⟨-, before', -, hsearch⟩ := search_cons_cases h
    · simpa using List.find?_some hmatch
    · exact Nat.lt_succ_of_lt (ih hsearch)

/-- Where a match starts with a character of some kind only, what is found does. -/
theorem head_of_search {start : α → Bool}
    (hstart : ∀ a s rest, rest ∈ r.run (a :: s) → start a = true)
    (h : r.search s = some (before, found, rest)) :
    ∃ a found', found = a :: found' ∧ start a = true := by
  induction s generalizing before with
  | nil => exact absurd h (by simp [search])
  | cons a s ih =>
    obtain ⟨hmatch, -⟩ | ⟨-, before', -, hsearch⟩ := search_cons_cases h
    · have hmem : rest ∈ r.run (a :: s) := List.mem_of_find?_eq_some hmatch
      have hlt : rest.length < (a :: s).length := by simpa using List.find?_some hmatch
      rw [search, hmatch] at h
      simp only [Option.some.injEq, Prod.mk.injEq] at h
      obtain ⟨-, rfl, -⟩ := h
      obtain ⟨k, hk⟩ := Nat.exists_eq_add_of_lt hlt
      have htake : (a :: s).length - rest.length = k + 1 := by omega
      exact ⟨a, s.take k, by rw [htake, List.take_succ_cons], hstart a s rest hmem⟩
    · exact ih hsearch

/-! ## Splitting -/

/-- A bound that is not below the length of the text does not matter. -/
theorem splitFrom_eq {n m : ℕ} (hn : s.length ≤ n) (hm : s.length ≤ m) :
    r.splitFrom n s = r.splitFrom m s := by
  induction n generalizing s m with
  | zero =>
    obtain rfl := List.length_eq_zero_iff.mp (Nat.le_zero.mp hn)
    cases m <;> rfl
  | succ n ih =>
    cases m with
    | zero =>
      obtain rfl := List.length_eq_zero_iff.mp (Nat.le_zero.mp hm)
      rfl
    | succ m =>
      rw [splitFrom, splitFrom]
      cases hsearch : r.search s with
      | none => rfl
      | some found =>
        obtain ⟨before, found, rest⟩ := found
        have hlt := length_lt_of_search hsearch
        dsimp only
        rw [ih (by omega) (Nat.le_of_lt_succ (Nat.lt_of_lt_of_le hlt hm))]

theorem splitFrom_of_search (h : r.search s = some (before, found, rest)) :
    r.splitFrom s.length s = before :: found :: r.splitFrom rest.length rest := by
  have hlt := length_lt_of_search h
  obtain ⟨n, hn⟩ := Nat.exists_eq_add_of_lt hlt
  rw [hn, splitFrom, h]
  dsimp only
  rw [splitFrom_eq (m := rest.length) (by omega) (Nat.le_refl _)]

theorem split_eq_nil_iff : r.split s = [] ↔ s = [] := by
  have hne : ∀ n s, r.splitFrom n s ≠ [] := by
    intro n s
    cases n with
    | zero => exact List.cons_ne_nil s []
    | succ n =>
      rw [splitFrom]
      split <;> exact List.cons_ne_nil _ _
  rw [split]
  cases s with
  | nil => simp
  | cons a s => simpa using hne _ _

/-- **Counting.** Where every match counts, some piece does not exactly if some gap does
not. -/
theorem countP_split_lt_iff {counts : List α → Bool}
    (hfound : ∀ {s before found rest}, r.search s = some (before, found, rest) →
      counts found = true) :
    (r.split s).countP counts < (r.split s).length ↔ ∃ gap ∈ r.gaps s, counts gap = false := by
  have hone : ∀ s, [s].countP counts < [s].length ↔ ∃ gap ∈ [s], counts gap = false := by
    intro s
    rw [List.countP_lt_length_iff]
  have hfrom : ∀ n (s : List α),
      (r.splitFrom n s).countP counts < (r.splitFrom n s).length ↔
        ∃ gap ∈ r.gapsFrom n s, counts gap = false := by
    intro n
    induction n with
    | zero => exact hone
    | succ n ih =>
      intro s
      rw [splitFrom, gapsFrom]
      cases hsearch : r.search s with
      | none => exact hone s
      | some parts =>
        obtain ⟨before, found, rest⟩ := parts
        have hrest := ih rest
        rw [List.countP_lt_length_iff] at hrest ⊢
        simp only [List.mem_cons, exists_eq_or_imp, hfound hsearch]
        simpa using or_congr_right hrest
  rw [split, gaps]
  cases hs : s.isEmpty with
  | true => simp
  | false => exact hfrom s.length s

/-- **Splitting a joined text.** Pieces that each are matched whole, whatever is behind
them, come out of a text in which a character that starts no match stands between
them. -/
theorem split_joined {sep : α} (hsep : ∀ s, r.matchAt (sep :: s) = none) {m : List α}
    {ms : List (List α)}
    (hms : ∀ x ∈ m :: ms, x ≠ [] ∧ ∀ rest, r.matchAt (x ++ rest) = some rest) :
    r.split (m ++ ms.flatMap fun x => sep :: x) =
      [] :: m :: (ms.flatMap fun x => [[sep], x]) ++ [[]] := by
  obtain ⟨⟨hne, hm⟩, hms⟩ := List.forall_mem_cons.mp hms
  have htail : ∀ ms : List (List α),
      (∀ x ∈ ms, x ≠ [] ∧ ∀ rest, r.matchAt (x ++ rest) = some rest) →
      r.splitFrom (ms.flatMap fun x => sep :: x).length (ms.flatMap fun x => sep :: x) =
        (ms.flatMap fun x => [[sep], x]) ++ [[]] := by
    intro ms hms
    induction ms with
    | nil => rfl
    | cons x ms ih =>
      obtain ⟨⟨hx, hmatch⟩, hms⟩ := List.forall_mem_cons.mp hms
      have hsearch : r.search (sep :: (x ++ ms.flatMap fun x => sep :: x)) =
          some ([sep], x, ms.flatMap fun x => sep :: x) := by
        rw [search_cons_of_none (hsep _), search_of_matchAt hx (hmatch _)]
        rfl
      rw [List.flatMap_cons, List.cons_append, splitFrom_of_search hsearch, ih hms]
      rfl
  have hsearch := search_of_matchAt hne (hm (ms.flatMap fun x => sep :: x))
  rw [split, if_neg (by simp [hne]), splitFrom_of_search hsearch, htail ms hms]
  rfl

end Regex

end Tlm
