import Tlm.Blanks
import Tlm.Script

/-!
# The buffer of the launcher (`_tlm_launcher_process`)

One array, `str[1024]`, takes every piece of the script in turn. It is filled by `fgets`,
stripped where it stands, and the command is what stands in it from the third character
on; there is no test that the text has a third character. Behind a terminator there is
still what was there before: the rest of the text that was moved to the front, or of an
earlier piece, or whatever the stack had when the function was called.

`fgets`, `g_strchug` and `g_strchomp` are followed here as writes to memory from `str`
on, with one `Char` for one `char`. `process` is the loop, over all the calls of the
function; `leaves` says in terms of the text alone what can be read as a command once
a piece was worked on (`stale_strip`, `stale_cmd`), and `process_eq` that this is all there
is to it.
-/

namespace Tlm

namespace ScriptBuffer

open Blanks Script

/-! ## Strings in memory -/

/-- `g_ascii_isspace`. -/
abbrev isSpace : Char → Bool := Script.isSpace

/-- The C string at the start of a stretch of memory. -/
def cStr (mem : List Char) : List Char := mem.takeWhile (· ≠ '\x00')

/-- Write to the start of a stretch of memory. -/
def overwrite (mem cs : List Char) : List Char := cs ++ mem.drop cs.length

/-- `g_strchug`: the string is moved to where its blanks were, with its terminator. -/
def strchug (mem : List Char) : List Char :=
  overwrite mem ((cStr mem).dropWhile isSpace ++ ['\x00'])

/-- `g_strchomp`: each blank at the end becomes a terminator. -/
def strchomp (mem : List Char) : List Char :=
  let text := (cStr mem).rdropWhile isSpace
  overwrite mem (text ++ List.replicate ((cStr mem).length - text.length) '\x00')

/-- `g_strstrip`. -/
def strstripAt (mem : List Char) : List Char := strchomp (strchug mem)

/-- What `fgets` does to its buffer. -/
def store (mem piece : List Char) : List Char := overwrite mem (piece ++ ['\x00'])

/-! ## The loop -/

/-- The pieces `fgets` reads. -/
def readPieces (script : List Char) : List (List Char) :=
  (pieces (text script)).map fun piece => piece.map Prod.fst

/-- The loop of `_tlm_launcher_process`, over the pieces that are left: the pairs of control
character and command it acts on. `again n` says whether the function returns behind the
`n`-th pair, if that is a `W` line, and what memory its array is in when it is called again;
for an empty list of files there is nothing to wait for. -/
def process (again : ℕ → Option (List Char)) : ℕ → List Char → List (List Char) →
    List (Char × List Char)
  | _, _, [] => []
  | n, mem, piece :: rest =>
    let str := store mem piece
    if cStr str = [] then process again n str rest
    else
      let str := strstripAt str
      match cStr str with
      | [] => process again n str rest
      | control :: _ =>
        if control = '#' then process again n str rest
        else
          let str := str.take 2 ++ strstripAt (str.drop 2)
          let cmd := cStr (str.drop 2)
          let str := if control = 'W' ∧ cmd ≠ [] then (again n).getD str else str
          (control, cmd) :: process again (n + 1) str rest

/-! ## The loop, without memory -/

/-- Two blanks or more, and then a control character that is the last character. -/
def loose (piece : List Char) : Bool :=
  2 ≤ (piece.takeWhile isSpace).length && (piece.dropWhile isSpace).length = 1

/-- What can be read as a command once a piece was worked on, if it was `stale` before. -/
def leaves (stale piece : List Char) : List Char :=
  match piece with
  | [_] => stale
  | piece => if loose piece then strip isSpace piece else strip isSpace ((strip isSpace piece).drop 2)

/-- The loop, with nothing of the memory but what can be read as a command. -/
def run (again : ℕ → Option (List Char)) : ℕ → List Char → List (List Char) →
    List (Char × List Char)
  | _, _, [] => []
  | n, stale, piece :: rest =>
    let cmd := leaves stale piece
    match strip isSpace piece with
    | [] => run again n cmd rest
    | control :: _ =>
      if control = '#' then run again n cmd rest
      else
        let stale := if control = 'W' ∧ cmd ≠ [] then (again n).getD cmd else cmd
        (control, cmd) :: run again (n + 1) stale rest

/-- What can be read as a command in a stretch of memory. -/
def stale (mem : List Char) : List Char := strip isSpace (cStr (mem.drop 2))

/-! ## Strings in memory -/

section

variable {mem old cs piece b q : List Char} {c : Char}

theorem cStr_append (h : '\x00' ∉ cs) : cStr (cs ++ '\x00' :: old) = cs := by
  rw [cStr, List.takeWhile_append_of_pos]
  · simp
  · intro c hc
    have hne : c ≠ '\x00' := fun heq => h (heq ▸ hc)
    simpa using hne

theorem nul_notMem_cStr (mem : List Char) : '\x00' ∉ cStr mem := by
  intro h
  simpa using List.mem_takeWhile_imp h

theorem nul_notMem_strip (h : '\x00' ∉ cs) : '\x00' ∉ strip isSpace cs := fun hmem =>
  h ((List.dropWhile_sublist _).subset ((List.rdropWhile_prefix _ _).subset hmem))

/-- **`g_strstrip` in memory**: the stripped text, terminators where blanks were behind it,
and then what was there before. -/
theorem strstripAt_eq (mem : List Char) :
    strstripAt mem = strip isSpace (cStr mem) ++
      (List.replicate (((cStr mem).dropWhile isSpace).length - (strip isSpace (cStr mem)).length)
        '\x00' ++ '\x00' :: mem.drop (((cStr mem).dropWhile isSpace).length + 1)) := by
  have hnul : '\x00' ∉ (cStr mem).dropWhile isSpace := fun h =>
    nul_notMem_cStr mem ((List.dropWhile_sublist _).subset h)
  have hchug : strchug mem = (cStr mem).dropWhile isSpace ++
      '\x00' :: mem.drop (((cStr mem).dropWhile isSpace).length + 1) := by
    rw [strchug, overwrite, List.append_assoc, List.length_append]
    rfl
  have hstrip : strip isSpace (cStr mem) = ((cStr mem).dropWhile isSpace).rdropWhile isSpace := rfl
  have hle := (List.rdropWhile_prefix isSpace ((cStr mem).dropWhile isSpace)).length_le
  rw [strstripAt, hchug, strchomp, cStr_append hnul, overwrite, hstrip]
  generalize (cStr mem).dropWhile isSpace = text at hle
  have hlen : (text.rdropWhile isSpace ++ List.replicate
      (text.length - (text.rdropWhile isSpace).length) '\x00').length = text.length := by
    rw [List.length_append, List.length_replicate]
    omega
  rw [hlen, List.drop_left, List.append_assoc]

/-- Where terminators follow, a C string ends. -/
theorem cStr_append_nuls (h : '\x00' ∉ cs) (k : ℕ) :
    cStr (cs ++ (List.replicate k '\x00' ++ '\x00' :: old)) = cs := by
  cases k with
  | zero => exact cStr_append h
  | succ k => exact cStr_append h

theorem cStr_strstripAt (mem : List Char) : cStr (strstripAt mem) = strip isSpace (cStr mem) := by
  rw [strstripAt_eq]
  exact cStr_append_nuls (nul_notMem_strip (nul_notMem_cStr mem)) _

/-- What is behind the first character of a text and its terminators, if there is one. -/
theorem cStr_drop_nuls (h : '\x00' ∉ cs) {k : ℕ} (hk : cs ≠ [] ∨ k ≠ 0) :
    cStr ((cs ++ (List.replicate k '\x00' ++ '\x00' :: old)).drop 1) = cs.drop 1 := by
  cases cs with
  | nil =>
    obtain ⟨k, rfl⟩ : ∃ n, k = n + 1 := Nat.exists_eq_succ_of_ne_zero (hk.resolve_left (· rfl))
    have hnil : '\x00' ∉ ([] : List Char) := nofun
    exact cStr_append_nuls hnil k
  | cons c cs => exact cStr_append_nuls (fun hmem => h (List.mem_cons_of_mem c hmem)) k

theorem store_eq (mem piece : List Char) :
    store mem piece = piece ++ '\x00' :: mem.drop (piece.length + 1) := by
  rw [store, overwrite, List.append_assoc, List.length_append]
  rfl

theorem cStr_store (h : '\x00' ∉ piece) (mem : List Char) : cStr (store mem piece) = piece := by
  rw [store_eq]
  exact cStr_append h

/-! ## What a piece leaves behind -/

/-- With the first character that is not blank in view. -/
theorem loose_first (hb : AllBlank isSpace b) (hc : isSpace c = false) :
    loose (b ++ c :: q) = true ↔ 2 ≤ b.length ∧ q = [] := by
  have hneg : ¬isSpace c = true := by simp [hc]
  rw [loose, List.takeWhile_append_of_pos hb, List.dropWhile_append_of_pos hb,
    List.takeWhile_cons_of_neg hneg, List.dropWhile_cons_of_neg hneg]
  simp

theorem leaves_of_length {σ : List Char} (h : piece.length ≠ 1) :
    leaves σ piece = if loose piece then strip isSpace piece
      else strip isSpace ((strip isSpace piece).drop 2) := by
  rw [leaves]
  rintro x rfl
  exact h rfl

theorem leaves_of_allBlank {σ : List Char} (h : AllBlank isSpace piece)
    (hlen : piece.length ≠ 1) : leaves σ piece = [] := by
  rw [leaves_of_length hlen, strip_of_allBlank h]
  split <;> rfl

theorem leaves_first {σ : List Char} (hb : AllBlank isSpace b) (hc : isSpace c = false) :
    leaves σ (b ++ c :: q) =
      if q = [] then if b = [] then σ else if 2 ≤ b.length then [c] else []
      else strip isSpace (q.drop 1) := by
  by_cases hlen : (b ++ c :: q).length = 1
  · obtain ⟨rfl, rfl⟩ : b = [] ∧ q = [] := by
      simp only [List.length_append, List.length_cons] at hlen
      exact ⟨List.length_eq_zero_iff.mp (by omega), List.length_eq_zero_iff.mp (by omega)⟩
    rfl
  · rw [leaves_of_length hlen, strip_first hb hc, List.drop_succ_cons, strip_drop_rdropWhile]
    by_cases hq : q = []
    · subst hq
      have hb' : b ≠ [] := by
        rintro rfl
        exact hlen rfl
      rw [if_pos rfl, if_neg hb']
      refine if_congr ((loose_first hb hc).trans (and_iff_left rfl)) rfl rfl
    · rw [if_neg hq, if_neg]
      exact fun h => hq ((loose_first hb hc).mp h).2

/-- What is behind the first two characters after a strip, if the text is not blank. -/
theorem strstripAt_first (hnul : '\x00' ∉ b ++ c :: q) (hb : AllBlank isSpace b)
    (hc : isSpace c = false) (mem : List Char) :
    (strstripAt (store mem (b ++ c :: q))) = c :: (q.rdropWhile isSpace ++
      (List.replicate (q.length - (q.rdropWhile isSpace).length) '\x00' ++
        '\x00' :: (store mem (b ++ c :: q)).drop (q.length + 2))) := by
  have hneg : ¬isSpace c = true := by simp [hc]
  rw [strstripAt_eq, cStr_store hnul, strip_first hb hc, List.dropWhile_append_of_pos hb,
    List.dropWhile_cons_of_neg hneg, List.length_cons, List.length_cons, Nat.add_sub_add_right,
    List.cons_append]

/-- **What can be read as a command** after a piece was stored and stripped. -/
theorem stale_strip (hnul : '\x00' ∉ piece) (hne : piece ≠ []) (mem : List Char) :
    stale (strstripAt (store mem piece)) = leaves (stale mem) piece := by
  by_cases hblank : AllBlank isSpace piece
  · -- the terminator goes to the front, and nothing else is written
    have hmem : (strstripAt (store mem piece)).drop 2 = (store mem piece).drop 2 := by
      have hlstrip : piece.dropWhile isSpace = [] := List.dropWhile_eq_nil_iff.mpr hblank
      rw [strstripAt_eq, cStr_store hnul, strip_of_allBlank hblank, hlstrip]
      simp
    rw [stale, hmem, store_eq]
    cases piece with
    | nil => exact absurd rfl hne
    | cons x piece =>
      cases piece with
      | nil => rfl
      | cons y piece =>
        rw [leaves_of_allBlank hblank (by simp)]
        have hrest : '\x00' ∉ piece := fun h => hnul (by simp [h])
        rw [List.cons_append, List.cons_append, List.drop_succ_cons, List.drop_succ_cons,
          List.drop_zero, cStr_append hrest]
        exact strip_of_allBlank (hblank.drop 2)
  · obtain ⟨b, c, q, rfl, hb, hc⟩ := exists_first hblank
    have hb' : '\x00' ∉ b := fun h => hnul (List.mem_append_left _ h)
    have hq' : '\x00' ∉ q := fun h => hnul (List.mem_append_right b (List.mem_cons_of_mem c h))
    rw [stale, strstripAt_first hnul hb hc, leaves_first hb hc]
    by_cases hq : q = []
    · -- the control character is all there is: what was behind it comes into view
      subst hq
      have hview : ∀ rest : List Char, (c :: '\x00' :: rest).drop 2 = rest := fun _ => rfl
      rw [if_pos rfl]
      refine (congrArg (fun mem => strip isSpace (cStr mem)) (hview _)).trans ?_
      simp only [List.length_nil, Nat.zero_add, store_eq]
      rcases b with _ | ⟨x, _ | ⟨y, b⟩⟩
      · rfl
      · rfl
      · have hend : '\x00' ∉ b ++ [c] := fun h => hnul (by simp_all)
        have hb2 : AllBlank isSpace b := fun z hz => hb z (by simp [hz])
        rw [if_neg (List.cons_ne_nil x _), if_pos (by simp), List.cons_append, List.cons_append,
          List.cons_append, List.cons_append, List.drop_succ_cons, List.drop_succ_cons,
          List.drop_zero, cStr_append hend]
        exact strip_first hb2 hc
    · rw [if_neg hq, List.drop_succ_cons, cStr_drop_nuls, strip_drop_rdropWhile]
      · exact fun h => hq' ((List.rdropWhile_prefix _ _).subset h)
      · by_cases hrstrip : q.rdropWhile isSpace = []
        · refine .inr ?_
          rw [hrstrip]
          exact fun h => hq (List.length_eq_zero_iff.mp h)
        · exact .inl hrstrip

/-- The command is stripped once more, and then stands in the memory as it was read. -/
theorem stale_cmd {str : List Char} (hlen : 2 ≤ str.length) :
    cStr ((str.take 2 ++ strstripAt (str.drop 2)).drop 2) = stale str ∧
      stale (str.take 2 ++ strstripAt (str.drop 2)) = stale str := by
  have htake : (str.take 2).length = 2 := List.length_take_of_le hlen
  have hdrop : (str.take 2 ++ strstripAt (str.drop 2)).drop 2 = strstripAt (str.drop 2) := by
    rw [List.drop_append_of_le_length (Nat.le_of_eq htake.symm), List.drop_of_length_le
      (Nat.le_of_eq htake), List.nil_append]
  have hcmd : cStr (strstripAt (str.drop 2)) = stale str := cStr_strstripAt _
  refine ⟨(congrArg cStr hdrop).trans hcmd, ?_⟩
  rw [stale, hdrop, hcmd]
  exact strip_strip isSpace _

/-- Behind a pair the array is what it was, or that of a new call. -/
theorem stale_again {str cmd : List Char} (p : Prop) [Decidable p] (frame : Option (List Char))
    (h : stale str = cmd) :
    stale (if p then frame.getD str else str) =
      if p then (frame.map stale).getD cmd else cmd := by
  split
  · cases frame with
    | none => exact h
    | some frame => rfl
  · exact h

/-- **The loop needs no memory** but what can be read as a command. -/
theorem process_eq (again : ℕ → Option (List Char)) (n : ℕ) (mem : List Char)
    {script : List (List Char)} (h : ∀ piece ∈ script, piece ≠ [] ∧ '\x00' ∉ piece) :
    process again n mem script = run (fun n => (again n).map stale) n (stale mem) script := by
  induction script generalizing n mem with
  | nil => rfl
  | cons piece rest ih =>
    obtain ⟨hne, hnul⟩ := h piece List.mem_cons_self
    have ih := fun n mem => ih n mem fun p hp => h p (List.mem_cons_of_mem _ hp)
    have hstale := stale_strip hnul hne mem
    have hstr : cStr (strstripAt (store mem piece)) = strip isSpace piece := by
      rw [cStr_strstripAt, cStr_store hnul]
    simp only [process, run, cStr_store hnul, if_neg hne, hstr]
    cases hstrip : strip isSpace piece with
    | nil => exact (ih n _).trans (by rw [hstale])
    | cons control cs =>
      simp only
      by_cases hcomment : control = '#'
      · rw [if_pos hcomment, if_pos hcomment, ih, hstale]
      · have hlen : 2 ≤ (strstripAt (store mem piece)).length := by
          rw [strstripAt_eq, cStr_store hnul, hstrip]
          simp only [List.length_append, List.length_cons, List.length_replicate]
          omega
        obtain ⟨hcmd, hcmd'⟩ := stale_cmd hlen
        rw [if_neg hcomment, if_neg hcomment, hcmd, hstale, ih]
        rw [stale_again _ _ (hcmd'.trans hstale)]

end

end ScriptBuffer

end Tlm
