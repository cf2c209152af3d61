import Mathlib.Data.List.Basic

/-!
# Launcher scripts

`tlm-launcher` reads its script with `fgets`, through the buffer of a stdio
stream: `buffer` is what the stream has read ahead and `rest` what nobody has
read from the file. A line that is too long for `str` comes in several pieces,
each of which is taken for a line of its own.

Where the reads of the file fall does not matter to **one** reader: it gets the
pieces of `buffer ++ rest`, one after the other (`fgets_eq`), and so all in all
the `pieces` of the script.
-/

namespace Tlm

namespace Script

/-- A character of the script, with its place in the file. -/
abbrev Chr : Type := Char × ℕ

/-- The script as it is read. -/
def text (script : List Char) : List Chr := script.zipIdx

/-- How many characters `fgets (str, sizeof (str) - 1, fp)` takes at most. -/
def lineMax : ℕ := 1022

/-! ## Taking a line apart -/

/-- `g_ascii_isspace`. -/
def isSpace (c : Char) : Bool := c = ' ' || c = '\t' || c = '\n' || c = '\x0c' || c = '\r'

/-- `g_strstrip`. -/
def strstrip (cs : List Char) : List Char :=
  ((cs.dropWhile isSpace).reverse.dropWhile isSpace).reverse

/-- The characters of a C string. -/
def cString (line : List Chr) : List Char := (line.map Prod.fst).takeWhile (· ≠ '\x00')

/-- Control character and command of a line; `none` for a line that is skipped,
because it is empty or a comment. -/
def parse (line : List Chr) : Option (Char × List Char) :=
  match strstrip (cString line) with
  | [] => none
  | control :: cs => if control = '#' then none else some (control, strstrip (cs.drop 1))

/-- Is it a line that a process is forked for? -/
def launches (line : List Chr) : Bool := (parse line).any fun p => p.1 = 'M' || p.1 = 'L'

/-- Where a piece of the script begins. -/
def place (line : List Chr) : ℕ := (line.head?.map Prod.snd).getD 0

/-- The number of the line a piece belongs to. -/
def lineOf (script : List Char) (line : List Chr) : ℕ := (script.take (place line)).count '\n'

/-! ## Reading -/

/-- `fgets`, for at most `n` characters: the line, and then the buffer and the rest of
the file. An empty buffer is filled with the next block. -/
def fgets (block : ℕ) : ℕ → List Chr → List Chr → List Chr × List Chr × List Chr
  | 0, buffer, rest => ([], buffer, rest)
  | n + 1, buffer, rest =>
    let (buffer, rest) :=
      if buffer.isEmpty then (rest.take block, rest.drop block) else (buffer, rest)
    match buffer with
    | [] => ([], [], rest)
    | c :: buffer =>
      if c.1 = '\n' then ([c], buffer, rest)
      else
        let (line, buffer, rest) := fgets block n buffer rest
        (c :: line, buffer, rest)

/-- The next piece of a text, and what is left. -/
def takeLine : ℕ → List Chr → List Chr × List Chr
  | 0, text => ([], text)
  | _ + 1, [] => ([], [])
  | n + 1, c :: text =>
    if c.1 = '\n' then ([c], text)
    else
      let (line, text) := takeLine n text
      (c :: line, text)

/-- The first `n` pieces of a text. -/
def piecesUpTo : ℕ → List Chr → List (List Chr)
  | 0, _ => []
  | n + 1, text =>
    match takeLine lineMax text with
    | ([], _) => []
    | (c :: line, text) => (c :: line) :: piecesUpTo n text

/-- The pieces in which a text is read. -/
def pieces (text : List Chr) : List (List Chr) := piecesUpTo text.length text

/-- Those that are not skipped. -/
def commands (text : List Chr) : List (List Chr) := (pieces text).filter fun l => (parse l).isSome

/-! ## One reader -/

variable {block : ℕ}

theorem fgets_cons (n : ℕ) (c : Chr) (buffer rest : List Chr) :
    fgets block (n + 1) (c :: buffer) rest =
      if c.1 = '\n' then ([c], buffer, rest)
      else (c :: (fgets block n buffer rest).1, (fgets block n buffer rest).2) := rfl

theorem takeLine_cons (n : ℕ) (c : Chr) (text : List Chr) :
    takeLine (n + 1) (c :: text) =
      if c.1 = '\n' then ([c], text) else (c :: (takeLine n text).1, (takeLine n text).2) := rfl

/-- A reader gets the next piece of what it has and of what is left of the file. -/
theorem fgets_eq (hb : 0 < block) (n : ℕ) (buffer rest : List Chr) :
    takeLine n (buffer ++ rest) =
      ((fgets block n buffer rest).1,
        (fgets block n buffer rest).2.1 ++ (fgets block n buffer rest).2.2) := by
  induction n generalizing buffer rest with
  | zero => rfl
  | succ n ih =>
    have hcons : ∀ (c : Chr) (buffer rest : List Chr), takeLine (n + 1) (c :: buffer ++ rest) =
        ((fgets block (n + 1) (c :: buffer) rest).1,
          (fgets block (n + 1) (c :: buffer) rest).2.1 ++
            (fgets block (n + 1) (c :: buffer) rest).2.2) := by
      intro c buffer rest
      rw [List.cons_append, takeLine_cons, fgets_cons, ih buffer rest]
      split <;> rfl
    rcases buffer with _ | ⟨c, buffer⟩
    · rcases rest with _ | ⟨c, rest⟩
      · simp [takeLine, fgets]
      · -- the buffer is empty: the first character comes with the next block
        obtain ⟨k, rfl⟩ := Nat.exists_eq_succ_of_ne_zero (Nat.ne_of_gt hb)
        have hfill : fgets (k + 1) (n + 1) [] (c :: rest) =
            fgets (k + 1) (n + 1) (c :: rest.take k) (rest.drop k) := rfl
        have hblock := hcons c (rest.take k) (rest.drop k)
        rw [List.cons_append, List.take_append_drop] at hblock
        rw [List.nil_append, hblock, hfill]
    · exact hcons c buffer rest

/-- A file that was read to its end stays so. -/
theorem fgets_rest {n : ℕ} {buffer rest line buffer' rest' : List Chr}
    (h : fgets block n buffer rest = (line, buffer', rest')) (hrest : rest = []) : rest' = [] := by
  subst hrest
  have hnil : (fgets block n buffer []).2.2 = [] := by
    clear h
    induction n generalizing buffer with
    | zero => rfl
    | succ n ih =>
      rcases buffer with _ | ⟨c, buffer⟩
      · simp [fgets]
      · rw [fgets_cons]
        split
        · rfl
        · exact ih
  rwa [h] at hnil

theorem takeLine_append (n : ℕ) (text : List Chr) :
    (takeLine n text).1 ++ (takeLine n text).2 = text := by
  induction n generalizing text with
  | zero => rfl
  | succ n ih =>
    cases text with
    | nil => rfl
    | cons c text =>
      simp only [takeLine]
      split
      · rfl
      · exact congrArg (c :: ·) (ih text)

theorem takeLine_length {n : ℕ} {text rest line : List Chr} {c : Chr}
    (h : takeLine n text = (c :: line, rest)) : rest.length < text.length := by
  have happ := takeLine_append n text
  rw [h] at happ
  rw [← happ]
  simp only [List.cons_append, List.length_cons, List.length_append]
  omega

/-- The number of pieces asked for does not matter, if it is large enough. -/
theorem piecesUpTo_congr {n m : ℕ} {text : List Chr} (hn : text.length ≤ n) (hm : text.length ≤ m) :
    piecesUpTo n text = piecesUpTo m text := by
  have hnil : ∀ k, piecesUpTo k [] = [] := by
    rintro (_ | k) <;> rfl
  induction n generalizing m text with
  | zero => rw [List.length_eq_zero_iff.mp (Nat.le_zero.mp hn), hnil, hnil]
  | succ n ih =>
    rcases m with _ | m
    · rw [List.length_eq_zero_iff.mp (Nat.le_zero.mp hm), hnil, hnil]
    · simp only [piecesUpTo]
      rcases htake : takeLine lineMax text with ⟨_ | ⟨c, line⟩, rest⟩
      · rfl
      · have hlen := takeLine_length htake
        exact congrArg ((c :: line) :: ·) (ih (by omega) (by omega))

theorem pieces_eq (text : List Chr) :
    pieces text = match takeLine lineMax text with
      | ([], _) => []
      | (c :: line, rest) => (c :: line) :: pieces rest := by
  have hsucc : pieces text = piecesUpTo (text.length + 1) text :=
    piecesUpTo_congr (Nat.le_refl _) (Nat.le_succ _)
  rw [hsucc, piecesUpTo]
  rcases htake : takeLine lineMax text with ⟨_ | ⟨c, line⟩, rest⟩
  · rfl
  · have hlen := takeLine_length htake
    exact congrArg ((c :: line) :: ·) (piecesUpTo_congr (by omega) (Nat.le_refl _))

/-- **What one reader gets** when it reads on: the first of the commands it had
before it, unless the piece is skipped. -/
theorem commands_fgets (hb : 0 < block) {buffer rest line buffer' rest' : List Chr}
    (h : fgets block lineMax buffer rest = (line, buffer', rest')) :
    commands (buffer ++ rest) =
      (if (parse line).isSome then [line] else []) ++ commands (buffer' ++ rest') := by
  have htake := fgets_eq hb lineMax buffer rest
  rw [h] at htake
  rcases line with _ | ⟨c, line⟩
  · -- the end of the file: nothing was read
    have happ := takeLine_append lineMax (buffer ++ rest)
    rw [htake] at happ
    rw [← happ]
    rfl
  · have hpieces : pieces (buffer ++ rest) = (c :: line) :: pieces (buffer' ++ rest') := by
      rw [pieces_eq, htake]
    rw [commands, hpieces, List.filter_cons]
    split <;> rfl

end Script

end Tlm
