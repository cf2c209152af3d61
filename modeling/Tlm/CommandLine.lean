import Mathlib.Data.List.Count
import Tlm.Block
import Tlm.CString
import Tlm.Regex

/-!
# Splitting command lines (`tlm-utils.c`)

`tlm_utils_split_command_line` cuts a command into arguments. GLib's regular
expressions do the work: `g_regex_split` gives what is between the matches **and**,
since the pattern is one group, the matches. Everything is stripped, what is empty then
is left out, and from the rest quotes and escapes are removed.

The vector for the arguments has as many slots as there are pieces, none extra for the
`NULL` at the end, so it is terminated only if some piece was left out. Without the
expression, when it could not be made and `g_strsplit` takes its place, every piece may be
an argument. With it, the parts between the matches are what the library takes for blanks,
and `g_strstrip` knows five of these only: where all parts have another one, such as a
vertical tabulator, they are arguments too (`terminated_iff`).

With the expression, quoting is undone: escaped arguments in quotes that they do not
contain come back as they were (`split_quoted`).
-/

namespace Tlm

/-! ## The pattern -/

/-- The blanks that `g_strstrip` takes away, as characters. -/
def isAsciiSpace (c : Char) : Bool :=
  c = '\t' || c = '\n' || c = '\x0c' || c = '\r' || c = ' '

/-- The characters of `\s`: these, and what else the library at hand takes for a blank: the
vertical tabulator in all but the oldest ones, and with Unicode properties also `NEL`, the
no-break space and others. -/
def isRegexSpace (extra : Char → Bool) (c : Char) : Bool := isAsciiSpace c || extra c

/-- The line ends, which `.` does not match. -/
def isNewline (c : Char) : Bool :=
  c = '\n' || c = '\x0b' || c = '\x0c' || c = '\r' || c = '\u0085' || c = '\u2028' || c = '\u2029'

/-- `q.*?q`. -/
def quotedPattern (q : Char) : Regex Char :=
  .seq (.cls (· = q)) (.seq (.star false (.cls fun c => !isNewline c)) (.cls (· = q)))

/-- `\S+`. -/
def wordPattern (extra : Char → Bool) : Regex Char :=
  .seq (.cls fun c => !isRegexSpace extra c) (.star true (.cls fun c => !isRegexSpace extra c))

/-- The pattern of `tlm_utils_split_command_line`. -/
def argumentPattern (extra : Char → Bool) : Regex Char :=
  .alt (quotedPattern '\'') (.alt (quotedPattern '"') (wordPattern extra))

/-! ## Pieces -/

/-- UTF-8, `none` for bytes that are none. -/
def decodeUtf8 (s : List UInt8) : Option (List Char) := s.toByteArray.utf8Decode?.map Array.toList

/-- UTF-8. -/
def encodeUtf8 (s : List Char) : List UInt8 := s.flatMap String.utf8EncodeChar

theorem decodeUtf8_encodeUtf8 (s : List Char) : decodeUtf8 (encodeUtf8 s) = some s := by
  have h : (encodeUtf8 s).toByteArray = s.utf8Encode := rfl
  rw [decodeUtf8, h, List.utf8Decode?_utf8Encode]
  rfl

/-- `g_regex_split` with the pattern, `none` when it gives `NULL`. -/
def gRegexSplit (extra : Char → Bool) (command : List UInt8) : Option (List (List UInt8)) :=
  (decodeUtf8 command).map fun s => ((argumentPattern extra).split s).map encodeUtf8

/-- `g_strsplit (command, " ", -1)`. -/
def gStrsplit (command : List UInt8) : List (List UInt8) :=
  if command.isEmpty then [] else command.splitOn 32

/-- The quotes of an item are moved out of the way, if it has the same at both ends. -/
def dequote (item : List UInt8) : List UInt8 :=
  if (item.head? = some 34 ∧ item.getLast? = some 34) ∨
      (item.head? = some 39 ∧ item.getLast? = some 39) then item.tail.dropLast
  else item

/-- The argument a piece stands for, if it does. -/
def toArgument (piece : List UInt8) : Option (List UInt8) :=
  let item := gStrstrip piece
  if item.isEmpty then none else some (cstring (gStrcompress (dequote item)))

/-- An argument vector. -/
abbrev Argv := Block (Option (List UInt8))

/-- `_split_command_line_with_regex`. The expression, if there is one, is given by what its
`\s` takes besides the blanks of `g_strstrip`. Without pieces the vector has no slots, and is
`NULL`. -/
def splitCommandLineWithRegex (regex : Option (Char → Bool)) (command : List UInt8) :
    Option Argv :=
  (match regex with
    | some extra => gRegexSplit extra command
    | none => some (gStrsplit command)).bind fun pieces =>
    if pieces.isEmpty then none
    else some ((Block.alloc pieces.length none).fill 0 ((pieces.filterMap toArgument).map some))

/-- `tlm_utils_split_command_line`. -/
def splitCommandLine (regex : Option (Char → Bool)) (command : Option (List UInt8)) :
    Option Argv :=
  command.bind (splitCommandLineWithRegex regex)

/-- `tlm_utils_split_command_lines`, with one expression for all commands. -/
def splitCommandLines (regex : Option (Char → Bool)) (commands : List (List UInt8)) :
    List (Option Argv) :=
  commands.map (splitCommandLineWithRegex regex)

/-- A vector has fewer arguments than slots, and a `NULL` behind them. -/
def Terminated (argv : Argv) : Prop :=
  argv.touched.length < argv.size ∧ argv.cells[argv.touched.length]? = some none

/-! ## Counting -/

theorem terminated_fill {n : ℕ} {args : List (List UInt8)} :
    Terminated ((Block.alloc n none).fill 0 (args.map some)) ↔ args.length < n := by
  have hlen : ((Block.alloc n none).fill 0 (args.map some)).touched.length = args.length := by
    simp [Block.touched_fill, Block.alloc]
  rw [Terminated, hlen, Block.size_fill, Block.size_alloc]
  constructor
  · exact fun h => h.1
  · intro h
    refine ⟨h, ?_⟩
    have hroom : 0 < n - args.length := by omega
    rw [Block.cells_fill (by simp; omega)]
    simp [Block.alloc, hroom]

/-- The vector made of some pieces is terminated when one of them is left out. -/
theorem terminated_pieces_iff {pieces : List (List UInt8)} :
    Terminated ((Block.alloc pieces.length none).fill 0 ((pieces.filterMap toArgument).map some)) ↔
      pieces.countP (fun piece => (toArgument piece).isSome) < pieces.length := by
  rw [terminated_fill, List.length_filterMap_eq_countP]

theorem toArgument_eq_none_iff {piece : List UInt8} :
    toArgument piece = none ↔ gStrstrip piece = [] := by
  simp [toArgument]

/-- The vector for some pieces is terminated when there are none, or one of them is blank. -/
theorem terminated_vector_iff {pieces : List (List UInt8)} :
    (∀ argv, (if pieces.isEmpty then none else
        some ((Block.alloc pieces.length none).fill 0 ((pieces.filterMap toArgument).map some))) =
          some argv → Terminated argv) ↔
      pieces = [] ∨ ∃ piece ∈ pieces, gStrstrip piece = [] := by
  by_cases hpieces : pieces = []
  · simp [hpieces]
  · have hempty : pieces.isEmpty = false := by simpa using hpieces
    simp only [hempty, Bool.false_eq_true, if_false, Option.some.injEq, forall_eq', hpieces,
      false_or, terminated_pieces_iff]
    rw [List.countP_lt_length_iff]
    simp [toArgument_eq_none_iff]

/-! ### With the expression -/

theorem encodeUtf8_cons (c : Char) (s : List Char) :
    encodeUtf8 (c :: s) = String.utf8EncodeChar c ++ encodeUtf8 s := rfl

/-- Being a blank for `g_strstrip` is seen at the first byte of a character. -/
theorem utf8EncodeChar_space (c : Char) :
    ∃ b bs, String.utf8EncodeChar c = b :: bs ∧ gAsciiIsspace b = isAsciiSpace c ∧
      (isAsciiSpace c = true → bs = []) := by
  have hchar : ∀ d : Char, c = d ↔ c.val.toNat = d.val.toNat := fun d =>
    ⟨fun h => by rw [h], fun h => Char.ext (UInt32.toNat_inj.mp h)⟩
  have hspace : isAsciiSpace c = true ↔ c.val.toNat = 9 ∨ c.val.toNat = 10 ∨ c.val.toNat = 12 ∨
      c.val.toNat = 13 ∨ c.val.toNat = 32 := by
    simp only [isAsciiSpace, Bool.or_eq_true, decide_eq_true_eq, hchar, or_assoc]
    rfl
  have hbyte : ∀ n : ℕ, gAsciiIsspace (UInt8.ofNat n) = true ↔ n % 256 = 9 ∨ n % 256 = 10 ∨
      n % 256 = 12 ∨ n % 256 = 13 ∨ n % 256 = 32 := by
    intro n
    simp only [gAsciiIsspace, Bool.or_eq_true, decide_eq_true_eq, ← UInt8.toNat_inj, or_assoc,
      UInt8.toNat_ofNat']
    rfl
  have hiff : ∀ n : ℕ, (n % 256 = c.val.toNat ∨ 128 ≤ n % 256 ∧ 128 ≤ c.val.toNat) →
      gAsciiIsspace (UInt8.ofNat n) = isAsciiSpace c := by
    intro n hn
    rw [Bool.eq_iff_iff, hspace, hbyte]
    omega
  simp only [String.utf8EncodeChar]
  split
  · exact ⟨_, _, rfl, hiff _ (by omega), fun _ => rfl⟩
  · have hbig : isAsciiSpace c ≠ true := by
      rw [Ne, hspace]
      omega
    split
    · exact ⟨_, _, rfl, hiff _ (by omega), fun h => absurd h hbig⟩
    · split
      · exact ⟨_, _, rfl, hiff _ (by omega), fun h => absurd h hbig⟩
      · exact ⟨_, _, rfl, hiff _ (by omega), fun h => absurd h hbig⟩

/-- A text is stripped to nothing just when it has blanks of `g_strstrip` only. -/
theorem gStrstrip_encodeUtf8 {s : List Char} :
    gStrstrip (encodeUtf8 s) = [] ↔ ∀ c ∈ s, isAsciiSpace c = true := by
  rw [gStrstrip_eq_nil_iff]
  constructor
  · intro h c hc
    obtain ⟨b, bs, hencode, hspace, -⟩ := utf8EncodeChar_space c
    rw [← hspace]
    exact h b (List.mem_flatMap.mpr ⟨c, hc, by rw [hencode]; exact List.mem_cons_self⟩)
  · intro h b hb
    obtain ⟨c, hc, hbc⟩ := List.mem_flatMap.mp hb
    obtain ⟨b', bs, hencode, hspace, hbs⟩ := utf8EncodeChar_space c
    rw [hencode, hbs (h c hc)] at hbc
    rw [List.mem_singleton.mp hbc, hspace]
    exact h c hc

/-- A match starts with a quote or with a character that is no blank at all. -/
theorem argumentPattern_start {extra : Char → Bool} (c : Char) (s rest : List Char)
    (h : rest ∈ (argumentPattern extra).run (c :: s)) : (!isAsciiSpace c) = true := by
  have hfirst : ∀ {p : Char → Bool} {q : Regex Char},
      rest ∈ (Regex.seq (.cls p) q).run (c :: s) → p c = true := by
    intro p q hq
    obtain ⟨s', hs', -⟩ := List.mem_flatMap.mp hq
    rw [Regex.run_cls_cons] at hs'
    by_contra hp
    simp [hp] at hs'
  rcases List.mem_append.mp h with h | h
  · obtain rfl : c = '\'' := by simpa using hfirst h
    rfl
  · rcases List.mem_append.mp h with h | h
    · obtain rfl : c = '"' := by simpa using hfirst h
      rfl
    · have hword := hfirst h
      simp only [isRegexSpace, Bool.not_or, Bool.and_eq_true] at hword
      exact hword.1

/-- So a match is an argument. -/
theorem toArgument_of_search {extra : Char → Bool} {s before found rest : List Char}
    (h : (argumentPattern extra).search s = some (before, found, rest)) :
    (toArgument (encodeUtf8 found)).isSome = true := by
  obtain ⟨c, found', rfl, hc⟩ := Regex.head_of_search argumentPattern_start h
  rw [Option.isSome_iff_ne_none, Ne, toArgument_eq_none_iff, gStrstrip_encodeUtf8]
  intro hall
  rw [hall c List.mem_cons_self] at hc
  cases hc

/-- Some part of the command outside the matches of the expression, before the first, between
two or behind the last, has no other characters than the blanks that `g_strstrip` takes away. -/
def HasBlankGap (extra : Char → Bool) (s : List Char) : Prop :=
  ∃ gap ∈ (argumentPattern extra).gaps s, ∀ c ∈ gap, isAsciiSpace c = true

/-- The pieces of a text are not all arguments when some gap is blank. -/
theorem exists_blank_piece_iff {extra : Char → Bool} {s : List Char} :
    (∃ piece ∈ ((argumentPattern extra).split s).map encodeUtf8, gStrstrip piece = []) ↔
      HasBlankGap extra s := by
  have hcount := Regex.countP_split_lt_iff (r := argumentPattern extra) (s := s)
    (fun h => toArgument_of_search h)
  rw [List.countP_lt_length_iff] at hcount
  simpa [HasBlankGap, toArgument_eq_none_iff, gStrstrip_encodeUtf8] using hcount

theorem terminated_of_regex_iff {extra : Char → Bool} {command : List UInt8} :
    (∀ argv, splitCommandLineWithRegex (some extra) command = some argv → Terminated argv) ↔
      ∀ s, decodeUtf8 command = some s → s = [] ∨ HasBlankGap extra s := by
  simp only [splitCommandLineWithRegex, gRegexSplit]
  cases hs : decodeUtf8 command with
  | none => simp
  | some s =>
    have hnil : ((argumentPattern extra).split s).map encodeUtf8 = [] ↔ s = [] := by
      rw [List.map_eq_nil_iff, Regex.split_eq_nil_iff]
    simp only [Option.map_some, Option.bind_some, Option.some.injEq, forall_eq']
    rw [terminated_vector_iff, hnil, exists_blank_piece_iff]

/-! ### Without -/

/-- Some piece between blanks is blank. -/
def HasBlankPiece (command : List UInt8) : Prop :=
  ∃ piece ∈ command.splitOn 32, gStrstrip piece = []

theorem terminated_of_none_iff {command : List UInt8} :
    (∀ argv, splitCommandLineWithRegex none command = some argv → Terminated argv) ↔
      command = [] ∨ HasBlankPiece command := by
  simp only [splitCommandLineWithRegex, Option.bind_some]
  rw [terminated_vector_iff]
  by_cases hempty : command = []
  · simp [hempty, gStrsplit]
  · have hsplit : gStrsplit command = command.splitOn 32 := by simp [gStrsplit, hempty]
    rw [hsplit]
    simp [hempty, HasBlankPiece]

/-- **When the vector is terminated.** With the expression: when nothing comes of the command,
which is empty or no UTF-8, or some part of it outside the matches is blank for `g_strstrip`.
Without: when it is empty or has a blank piece. -/
theorem terminated_iff (regex : Option (Char → Bool)) (command : List UInt8) :
    (∀ argv, splitCommandLineWithRegex regex command = some argv → Terminated argv) ↔
      (∀ extra, regex = some extra →
        ∀ s, decodeUtf8 command = some s → s = [] ∨ HasBlankGap extra s) ∧
      (regex = none → command = [] ∨ HasBlankPiece command) := by
  cases regex with
  | some extra =>
    rw [terminated_of_regex_iff]
    simp
  | none =>
    rw [terminated_of_none_iff]
    simp

/-- Without the expression, a command of one word fills its only slot. So does one of a
vertical tabulator with an expression that takes it for a blank. -/
theorem one_word_not_terminated :
    (∃ argv, splitCommandLineWithRegex none (asciiBytes "weston") = some argv ∧
      argv.touched.length = 1 ∧ argv.size = 1) ∧
    ∃ argv, splitCommandLineWithRegex (some fun c => c = '\x0b') [11] = some argv ∧
      argv.touched.length = 1 ∧ argv.size = 1 := by
  refine ⟨⟨_, rfl, by decide, by decide⟩, ?_⟩
  have hdecode : decodeUtf8 [11] = some ['\x0b'] := decodeUtf8_encodeUtf8 ['\x0b']
  simp only [splitCommandLineWithRegex, gRegexSplit, hdecode]
  exact ⟨_, rfl, by decide, by decide⟩

/-! ## Quoting and back -/

/-- An argument, escaped and enclosed in double quotes, or in single ones if it has a
double quote. -/
def quoteArgument (a : List UInt8) : List UInt8 :=
  let quote := if 34 ∈ a then 39 else 34
  quote :: (gStrescape a ++ [quote])

/-- A command line of quoted arguments. -/
def joinArguments (args : List (List UInt8)) : List UInt8 :=
  List.intercalate [32] (args.map quoteArgument)

/-- A string without `NUL` that does not have both quotes. -/
def Quotable (a : List UInt8) : Prop := 0 ∉ a ∧ ¬(34 ∈ a ∧ 39 ∈ a)

section

variable {a : List UInt8}

/-- The argument comes back from its quoted form. -/
theorem toArgument_quoteArgument (h : 0 ∉ a) : toArgument (quoteArgument a) = some a := by
  have hback : ∀ {q : UInt8}, q = 34 ∨ q = 39 → toArgument (q :: (gStrescape a ++ [q])) = some a := by
    intro q hq
    have hblank : gAsciiIsspace q = false := by
      obtain rfl | rfl := hq <;> rfl
    have hdequote : dequote (q :: (gStrescape a ++ [q])) = gStrescape a := by
      have hlast : (q :: (gStrescape a ++ [q])).getLast? = some q := by
        rw [← List.cons_append, List.getLast?_concat]
      rw [dequote, if_pos]
      · rw [List.tail_cons, List.dropLast_concat]
      · rw [hlast]
        obtain rfl | rfl := hq
        · exact .inl ⟨rfl, rfl⟩
        · exact .inr ⟨rfl, rfl⟩
    simp only [toArgument, gStrstrip_of_ends hblank hblank, hdequote, gStrcompress_gStrescape,
      cstring_of_not_mem h]
    rfl
  unfold quoteArgument
  split
  · exact hback (.inr rfl)
  · exact hback (.inl rfl)

/-- The quoted form is printable. -/
theorem mem_quoteArgument {x : UInt8} (h : x ∈ quoteArgument a) : 32 ≤ x.toNat ∧ x.toNat < 127 := by
  have hquote : ∀ {q : UInt8}, q = 34 ∨ q = 39 → x ∈ q :: (gStrescape a ++ [q]) →
      32 ≤ x.toNat ∧ x.toNat < 127 := by
    intro q hq hx
    simp only [List.mem_cons, List.mem_append, List.not_mem_nil, or_false] at hx
    obtain rfl | hx | rfl := hx
    · obtain rfl | rfl := hq <;> decide
    · exact (mem_gStrescape hx).1
    · obtain rfl | rfl := hq <;> decide
  unfold quoteArgument at h
  split at h
  · exact hquote (.inr rfl) h
  · exact hquote (.inl rfl) h

end

/-! ### ASCII -/

theorem encodeUtf8_ascii {s : List UInt8} (h : ∀ b ∈ s, b.toNat < 128) :
    encodeUtf8 (s.map Char.ofUInt8) = s := by
  induction s with
  | nil => rfl
  | cons b s ih =>
    obtain ⟨hb, hs⟩ := List.forall_mem_cons.mp h
    have hencode : String.utf8EncodeChar (Char.ofUInt8 b) = [b] := by
      have hval : (Char.ofUInt8 b).val.toNat = b.toNat := UInt8.toNat_toUInt32 b
      rw [String.utf8EncodeChar, hval, if_pos (by omega), UInt8.ofNat_toNat]
    rw [List.map_cons, encodeUtf8_cons, hencode, ih hs]
    rfl

theorem decodeUtf8_ascii {s : List UInt8} (h : ∀ b ∈ s, b.toNat < 128) :
    decodeUtf8 s = some (s.map Char.ofUInt8) := by
  conv_lhs => rw [← encodeUtf8_ascii h]
  exact decodeUtf8_encodeUtf8 _

/-! ### The matches -/

/-- The first match of a quote is up to the next one of its kind. -/
theorem head?_quotedPattern {q : Char} {e : List Char}
    (he : ∀ c ∈ e, c ≠ q ∧ isNewline c = false) (rest : List Char) :
    ((quotedPattern q).run (q :: (e ++ q :: rest))).head? = some rest := by
  have hfirst : (Regex.cls (· = q)).run (q :: (e ++ q :: rest)) = [e ++ q :: rest] := by
    rw [Regex.run_cls_cons]
    simp
  have hall : ∀ c ∈ e, (!isNewline c) = true ∧ decide (c = q) = false := by
    intro c hc
    obtain ⟨hne, hnl⟩ := he c hc
    simp [hne, hnl]
  have hlazy : (((Regex.star false (.cls fun c => !isNewline c)).run (e ++ q :: rest)).flatMap
      (Regex.cls (· = q)).run).head? = some rest :=
    Regex.head?_lazy_until (by simp) hall (by simp)
  have hrun : (quotedPattern q).run (q :: (e ++ q :: rest)) =
      ((Regex.star false (.cls fun c => !isNewline c)).run (e ++ q :: rest)).flatMap
        (Regex.cls (· = q)).run := by
    rw [quotedPattern, Regex.run, hfirst]
    simp only [List.flatMap_cons, List.flatMap_nil, List.append_nil]
    rfl
  rw [hrun]
  exact hlazy

/-- A quoted text is matched whole, whatever is behind it. -/
theorem matchAt_quoted (extra : Char → Bool) {q : Char} (hq : q = '\'' ∨ q = '"') {e : List Char}
    (he : ∀ c ∈ e, c ≠ q ∧ isNewline c = false) (rest : List Char) :
    (argumentPattern extra).matchAt (q :: (e ++ [q]) ++ rest) = some rest := by
  have hhead := head?_quotedPattern he rest
  have htext : q :: (e ++ [q]) ++ rest = q :: (e ++ q :: rest) := by simp
  rw [htext]
  apply Regex.matchAt_eq_of_head?
  · rw [argumentPattern, Regex.run, Regex.run]
    obtain rfl | rfl := hq
    · rw [List.head?_append, hhead]
      rfl
    · -- the other kind of quotes does not start here
      have hnone : (quotedPattern '\'').run ('"' :: (e ++ '"' :: rest)) = [] := by
        rw [quotedPattern, Regex.run, Regex.run_cls_cons]
        simp
      rw [hnone, List.nil_append, List.head?_append, hhead]
      rfl
  · simp
    omega

theorem matchAt_blank (extra : Char → Bool) (s : List Char) :
    (argumentPattern extra).matchAt (' ' :: s) = none := by
  have hrun : (argumentPattern extra).run (' ' :: s) = [] := by
    simp only [argumentPattern, quotedPattern, wordPattern, Regex.run]
    simp [isRegexSpace, isAsciiSpace]
  rw [Regex.matchAt, hrun]
  rfl

theorem isNewline_of_printable {c : Char} (hlo : 32 ≤ c.toNat) (hhi : c.toNat < 127) :
    isNewline c = false := by
  simp only [isNewline, Bool.or_eq_false_iff, decide_eq_false_iff_not]
  refine ⟨⟨⟨⟨⟨⟨?_, ?_⟩, ?_⟩, ?_⟩, ?_⟩, ?_⟩, ?_⟩ <;> rintro rfl <;> revert hlo hhi <;> decide

/-- The quoted form of an argument that does not have both quotes is matched whole. -/
theorem matchAt_quoteArgument (extra : Char → Bool) {a : List UInt8} (h : Quotable a)
    (rest : List Char) :
    (argumentPattern extra).matchAt ((quoteArgument a).map Char.ofUInt8 ++ rest) = some rest := by
  have hmatch : ∀ {q : UInt8}, q = 34 ∨ q = 39 → q ∉ a →
      (argumentPattern extra).matchAt ((q :: (gStrescape a ++ [q])).map Char.ofUInt8 ++ rest) =
        some rest := by
    intro q hq hnot
    rw [List.map_cons, List.map_append, List.map_singleton]
    apply matchAt_quoted
    · obtain rfl | rfl := hq
      · exact .inr rfl
      · exact .inl rfl
    · intro c hc
      obtain ⟨x, hx, rfl⟩ := List.mem_map.mp hc
      obtain ⟨⟨hlo, hhi⟩, hquote⟩ := mem_gStrescape hx
      have hval : (Char.ofUInt8 x).toNat = x.toNat := UInt8.toNat_toUInt32 x
      constructor
      · intro heq
        have hxq : x = q := by
          apply UInt8.toNat.inj
          rw [← hval, heq]
          exact UInt8.toNat_toUInt32 q
        exact hnot (hxq ▸ hquote (hxq ▸ hq))
      · exact isNewline_of_printable (by omega) (by omega)
  unfold quoteArgument
  split
  next h34 => exact hmatch (.inr rfl) fun h39 => h.2 ⟨h34, h39⟩
  next h34 => exact hmatch (.inl rfl) h34

theorem joinArguments_cons (a : List UInt8) (args : List (List UInt8)) :
    joinArguments (a :: args) =
      quoteArgument a ++ (args.map quoteArgument).flatMap fun x => 32 :: x := by
  induction args generalizing a with
  | nil => simp [joinArguments]
  | cons b args ih =>
    have hb := ih b
    simp only [joinArguments, List.map_cons] at hb ⊢
    rw [List.intercalate_cons_cons, hb]
    simp

/-- The pieces of a command line of quoted arguments. -/
theorem gRegexSplit_joinArguments (extra : Char → Bool) {a : List UInt8} {args : List (List UInt8)}
    (h : ∀ x ∈ a :: args, Quotable x) :
    gRegexSplit extra (joinArguments (a :: args)) =
      some ([] :: quoteArgument a :: (args.flatMap fun x => [[32], quoteArgument x]) ++ [[]]) := by
  have hascii : ∀ x, ∀ b ∈ quoteArgument x, b.toNat < 128 := by
    intro x b hb
    obtain ⟨-, hhi⟩ := mem_quoteArgument hb
    omega
  have hall : ∀ b ∈ joinArguments (a :: args), b.toNat < 128 := by
    intro b hb
    rw [joinArguments_cons] at hb
    simp only [List.mem_append, List.mem_flatMap, List.mem_map, List.mem_cons] at hb
    obtain hb | ⟨_, ⟨x, -, rfl⟩, rfl | hb⟩ := hb
    · exact hascii a b hb
    · decide
    · exact hascii x b hb
  -- the text, character by character
  have htext : (joinArguments (a :: args)).map Char.ofUInt8 =
      (quoteArgument a).map Char.ofUInt8 ++
        (args.map fun x => (quoteArgument x).map Char.ofUInt8).flatMap fun x => ' ' :: x := by
    have hblank : Char.ofUInt8 32 = ' ' := rfl
    simp [joinArguments_cons, List.map_flatMap, List.flatMap_map, hblank]
  have hmatch : ∀ x ∈ (quoteArgument a).map Char.ofUInt8 ::
        (args.map fun x => (quoteArgument x).map Char.ofUInt8),
      x ≠ [] ∧ ∀ rest, (argumentPattern extra).matchAt (x ++ rest) = some rest := by
    intro x hx
    rw [← List.map_cons (f := fun x => (quoteArgument x).map Char.ofUInt8)] at hx
    obtain ⟨y, hy, rfl⟩ := List.mem_map.mp hx
    exact ⟨by simp [quoteArgument], matchAt_quoteArgument extra (h y hy)⟩
  rw [gRegexSplit, decodeUtf8_ascii hall, htext, Option.map_some,
    Regex.split_joined (matchAt_blank extra) hmatch]
  have hencode : ∀ x, encodeUtf8 ((quoteArgument x).map Char.ofUInt8) = quoteArgument x :=
    fun x => encodeUtf8_ascii (hascii x)
  have hblank : encodeUtf8 [' '] = [32] := rfl
  have hnil : encodeUtf8 [] = [] := rfl
  simp [List.map_flatMap, List.flatMap_map, hencode, hblank, hnil]

theorem filterMap_toArgument_pieces {args : List (List UInt8)} (h : ∀ a ∈ args, Quotable a) :
    (args.flatMap fun x => [[32], quoteArgument x]).filterMap toArgument = args := by
  induction args with
  | nil => rfl
  | cons a args ih =>
    obtain ⟨ha, hargs⟩ := List.forall_mem_cons.mp h
    have hblank : toArgument [32] = none := by decide
    simp [hblank, toArgument_quoteArgument ha.1, ih hargs]

/-- **Quoting is undone.** For every list of arguments that is not empty, none of them with
both quotes, the command line of their quoted forms is split into exactly these
arguments, and the vector is terminated. -/
theorem split_quoted (extra : Char → Bool) {args : List (List UInt8)} (hne : args ≠ [])
    (h : ∀ a ∈ args, Quotable a) :
    ∃ argv, splitCommandLine (some extra) (some (joinArguments args)) = some argv ∧
      argv.readList = args ∧ Terminated argv := by
  obtain ⟨a, args, rfl⟩ := List.exists_cons_of_ne_nil hne
  obtain ⟨ha, hargs⟩ := List.forall_mem_cons.mp h
  -- the blank pieces are left out, and the others are the arguments
  obtain ⟨pieces, hpieces, hblank, hfound⟩ : ∃ pieces,
      gRegexSplit extra (joinArguments (a :: args)) = some pieces ∧ [] ∈ pieces ∧
        pieces.filterMap toArgument = a :: args := by
    refine ⟨_, gRegexSplit_joinArguments extra h, List.mem_cons_self, ?_⟩
    have hnil : toArgument [] = none := rfl
    simp only [List.cons_append, List.filterMap_cons, List.filterMap_append, List.filterMap_nil, hnil,
      toArgument_quoteArgument ha.1, filterMap_toArgument_pieces hargs, List.append_nil]
  have hvector : (if pieces.isEmpty then none else
      some ((Block.alloc pieces.length none).fill 0 ((pieces.filterMap toArgument).map some))) =
        some ((Block.alloc pieces.length none).fill 0 ((a :: args).map some)) := by
    have hsome : pieces.isEmpty = false := by
      rw [List.isEmpty_eq_false_iff]
      exact List.ne_nil_of_mem hblank
    rw [hsome, hfound]
    rfl
  have hterminated := terminated_vector_iff.mpr (.inr ⟨[], hblank, rfl⟩) _ hvector
  have hsplit : splitCommandLineWithRegex (some extra) (joinArguments (a :: args)) =
      some ((Block.alloc pieces.length none).fill 0 ((a :: args).map some)) := by
    simp only [splitCommandLineWithRegex, hpieces, Option.bind_some]
    exact hvector
  exact ⟨_, hsplit, Block.readList_fill (terminated_fill.mp hterminated), hterminated⟩

/-- An empty argument, one with a blank and a newline, and one with a double quote. -/
theorem split_quoted_three :
    ∃ argv, splitCommandLine (some fun c => c = '\x0b')
        (some (asciiBytes "\"\" \"a\\n b\" 'c\\\"'")) = some argv ∧
      argv.readList = [[], [97, 10, 32, 98], [99, 34]] ∧ Terminated argv := by
  have hjoin : joinArguments [[], [97, 10, 32, 98], [99, 34]] =
      asciiBytes "\"\" \"a\\n b\" 'c\\\"'" := by decide
  have h : ∀ a ∈ [[], [97, 10, 32, 98], [99, 34]], Quotable a := by
    simp [Quotable]
  have := split_quoted (fun c => c = '\x0b') (by simp) h
  rwa [hjoin] at this

end Tlm
