import Tlm.CString

/-!
# Login records (`tlm-utils.c`)

`tlm_utils_log_utmp_entry` looks for the record of its own process to write it anew, and
starts from an empty one if it does not find any. `utmp` keeps terminals without their
`/dev/`, and `ttyname_r` gives them with it; `_is_tty_same` puts `/dev/` in front of both
names where it is missing, and then compares the names it was **given**.

So the record is found only if it spells the terminal as `ttyname_r` does
(`selects_iff`), and the one that the function itself has written does not
(`searchUtmp_own_record`).

The record's id is the part of the terminal's name from its first digit on. The loop of
`_get_tty_id` ends at a digit and at nothing else: it tests its pointer where it means the
character. So it stays in the name exactly if there is a digit in it (`staysInName_iff`).
-/

namespace Tlm

/-- `LOGIN_PROCESS`. -/
def loginProcess : ℤ := 6

/-- `USER_PROCESS`. -/
def userProcess : ℤ := 7

/-- `struct utmp`. The strings are fields of a fixed size, not always terminated. -/
structure UtmpEntry where
  /-- `ut_type` -/
  type : ℤ := 0
  /-- `ut_pid` -/
  pid : ℤ := 0
  /-- `ut_line` -/
  line : List UInt8 := List.replicate 32 0
  /-- `ut_id` -/
  id : List UInt8 := List.replicate 4 0
  /-- `ut_user` -/
  user : List UInt8 := List.replicate 32 0
  /-- `ut_host` -/
  host : List UInt8 := List.replicate 256 0
  /-- `ut_session` -/
  session : ℤ := 0
  /-- `ut_addr_v6` -/
  addr : List UInt8 := List.replicate 16 0
  /-- `ut_time` -/
  time : ℤ := 0
  deriving DecidableEq, Repr

namespace UtmpEntry

/-- The string at `ut_line`, which runs on into the next fields if it has no end of its
own. -/
def lineName (e : UtmpEntry) : List UInt8 := cstring (e.line ++ e.id ++ e.user ++ e.host)

end UtmpEntry

/-- What the function learns from the system. -/
structure UtmpInputs where
  /-- `getpid` -/
  pid : ℤ
  /-- `ttyname_r` -/
  ttyName : Option (List UInt8)
  /-- what `_get_tty_id` makes of the terminal -/
  ttyId : Option (List UInt8) := none
  /-- `username` -/
  username : Option (List UInt8) := none
  /-- `_get_host_name` -/
  hostname : Option (List UInt8) := none
  /-- `_get_host_address` -/
  hostaddress : Option (List UInt8) := none
  /-- `getsid` -/
  session : ℤ := 0
  /-- `gettimeofday` -/
  time : ℤ := 0

/-! ## Terminal names -/

/-- A name with `/dev/` in front, if it does not start with a slash. -/
def ttyPath (name : List UInt8) : List UInt8 :=
  if name.head? = some 47 then name else asciiBytes "/dev/" ++ name

/-- Two names denote the same terminal. -/
def SameTerminal (a b : List UInt8) : Prop := ttyPath a = ttyPath b

instance (a b : List UInt8) : Decidable (SameTerminal a b) :=
  inferInstanceAs (Decidable (ttyPath a = ttyPath b))

/-- `_is_tty_same`. Both names are completed, and the completed names are freed again
without having been looked at. -/
def isTtySame : Option (List UInt8) → Option (List UInt8) → Bool
  | none, none => true
  | some tty1Name, some tty2Name => tty1Name = tty2Name
  | _, _ => false

/-! ## The search -/

/-- The tests of the loop that do not look at the terminal. -/
def UtmpEntry.isOfProcess (e : UtmpEntry) (pid : ℤ) : Bool :=
  e.pid = pid && e.id.headD 0 ≠ 0 && (e.type = loginProcess || e.type = userProcess)

/-- The loop over the records: where it stops. -/
def searchUtmp (pid : ℤ) (ttyName : Option (List UInt8)) (file : List UtmpEntry) : Option ℕ :=
  file.findIdx? fun e => e.isOfProcess pid && isTtySame (some e.lineName) ttyName

/-- The record it starts from. -/
def startEntry (pid : ℤ) (ttyName : Option (List UInt8)) (file : List UtmpEntry) : UtmpEntry :=
  ((searchUtmp pid ttyName file).bind fun i => file[i]?).getD {}

/-- `strncpy (field, s, n)`. -/
def strncpy (field : List UInt8) (n : ℕ) (s : List UInt8) : List UInt8 :=
  s.take n ++ List.replicate (n - s.length) 0 ++ field.drop n

/-- The terminal without its `/dev/`. -/
def ttyNoDevName (ttyName : List UInt8) : List UInt8 :=
  if ttyName.take 5 = asciiBytes "/dev/" then ttyName.drop 5 else ttyName

/-- `tlm_utils_log_utmp_entry`: the record it writes to `utmp` and `wtmp`. -/
def logUtmpEntry (a : UtmpInputs) (file : List UtmpEntry) : UtmpEntry :=
  let e := startEntry a.pid a.ttyName file
  { type := userProcess
    pid := a.pid
    id := a.ttyId.elim e.id (strncpy e.id 3)
    user := a.username.elim e.user (strncpy e.user 31)
    line := a.ttyName.elim e.line fun name => strncpy e.line 31 (ttyNoDevName name)
    host := a.hostname.elim e.host (strncpy e.host 255)
    addr := a.hostaddress.elim e.addr fun addr => addr ++ e.addr.drop addr.length
    session := a.session
    time := a.time }

/-- The record to be written anew: of the process, and with a line that names its
terminal. -/
def UtmpEntry.IsRight (e : UtmpEntry) (pid : ℤ) (ttyName : Option (List UInt8)) : Prop :=
  e.isOfProcess pid = true ∧ ∃ name, ttyName = some name ∧ SameTerminal e.lineName name

/-- **The right record**: the search stops at the first one that is right, and the function
starts from an empty record just if there is none. -/
structure Selects (pid : ℤ) (ttyName : Option (List UInt8)) (file : List UtmpEntry) : Prop where
  first : ∀ before e after, file = before ++ e :: after → e.IsRight pid ttyName →
    (∀ x ∈ before, ¬x.IsRight pid ttyName) → searchUtmp pid ttyName file = some before.length
  start : startEntry pid ttyName file = {} ↔ ∀ e ∈ file, ¬e.IsRight pid ttyName

/-- The first right record spells the terminal as `ttyname_r` does. -/
def SpeltAlike (pid : ℤ) (ttyName : Option (List UInt8)) (file : List UtmpEntry) : Prop :=
  ∀ before e after, file = before ++ e :: after → e.IsRight pid ttyName →
    (∀ x ∈ before, ¬x.IsRight pid ttyName) → some e.lineName = ttyName

section

variable {pid : ℤ} {ttyName : Option (List UInt8)} {file : List UtmpEntry} {e : UtmpEntry}

theorem isTtySame_some_iff {name : List UInt8} :
    isTtySame (some name) ttyName = true ↔ ttyName = some name := by
  cases ttyName with
  | none => simp [isTtySame]
  | some name' => simp [isTtySame, eq_comm]

/-- What the search accepts is right. -/
theorem isRight_of_found
    (h : (e.isOfProcess pid && isTtySame (some e.lineName) ttyName) = true) :
    e.IsRight pid ttyName := by
  obtain ⟨hproc, htty⟩ := Bool.and_eq_true_iff.mp h
  exact ⟨hproc, e.lineName, isTtySame_some_iff.mp htty, rfl⟩

/-- Of the right ones it accepts those that are spelt alike. -/
theorem found_iff (h : e.IsRight pid ttyName) :
    (e.isOfProcess pid && isTtySame (some e.lineName) ttyName) = true ↔
      some e.lineName = ttyName := by
  rw [Bool.and_eq_true_iff, isTtySame_some_iff, and_iff_right h.1]
  exact eq_comm

/-- Where there is such an element, there is a first one. -/
theorem exists_first_mem {α : Type} {p : α → Prop} {l : List α} (h : ∃ x ∈ l, p x) :
    ∃ before x after, l = before ++ x :: after ∧ p x ∧ ∀ y ∈ before, ¬p y := by
  classical
  obtain ⟨x, hx, hp⟩ := h
  obtain ⟨y, hfind⟩ : ∃ y, l.find? (fun x => decide (p x)) = some y :=
    Option.isSome_iff_exists.mp (List.find?_isSome.mpr ⟨x, hx, decide_eq_true hp⟩)
  obtain ⟨hy, before, after, hl, hbefore⟩ := List.find?_eq_some_iff_append.mp hfind
  refine ⟨before, y, after, hl, of_decide_eq_true hy, fun z hz => ?_⟩
  have := hbefore z hz
  simpa using this

/-- Where a search stops: at an element it accepts, behind elements it does not. -/
theorem findIdx?_split {α : Type} {p : α → Bool} {l before after : List α} {a : α}
    (h : l = before ++ a :: after) (hbefore : ∀ x ∈ before, p x = false) :
    l.findIdx? p = some before.length ↔ p a = true := by
  subst h
  rw [List.findIdx?_append, List.findIdx?_eq_none_iff.mpr hbefore, List.findIdx?_cons]
  cases p a with
  | true => simp
  | false =>
    simp only [Option.none_or, Bool.false_eq_true, if_false, iff_false, Option.map_map]
    intro hfound
    obtain ⟨i, -, hi⟩ := Option.map_eq_some_iff.mp hfound
    simp only [Function.comp_apply] at hi
    omega

/-- An empty record is nobody's. -/
theorem not_isOfProcess_empty : UtmpEntry.isOfProcess {} pid = false := by
  simp [UtmpEntry.isOfProcess]

theorem startEntry_eq_empty_iff :
    startEntry pid ttyName file = {} ↔ searchUtmp pid ttyName file = none := by
  unfold startEntry
  cases hsearch : searchUtmp pid ttyName file with
  | none => simp
  | some i =>
    obtain ⟨hi, hfound, -⟩ := List.findIdx?_eq_some_iff_getElem.mp hsearch
    simp only [Option.bind_some, List.getElem?_eq_getElem hi, Option.getD_some, reduceCtorEq,
      iff_false]
    intro hempty
    rw [hempty, not_isOfProcess_empty, Bool.false_and] at hfound
    exact absurd hfound (by decide)

/-- Nothing right, nothing found. -/
theorem searchUtmp_of_none (h : ∀ e ∈ file, ¬e.IsRight pid ttyName) :
    searchUtmp pid ttyName file = none := by
  apply List.findIdx?_eq_none_iff.mpr
  intro e he
  rw [Bool.eq_false_iff]
  exact fun hfound => h e he (isRight_of_found hfound)

/-- **When the right record is reused**: when it spells the terminal as `ttyname_r` does. -/
theorem selects_iff (pid : ℤ) (ttyName : Option (List UInt8)) (file : List UtmpEntry) :
    Selects pid ttyName file ↔ SpeltAlike pid ttyName file := by
  have hfirst : ∀ {before e after}, file = before ++ e :: after → e.IsRight pid ttyName →
      (∀ x ∈ before, ¬x.IsRight pid ttyName) →
      (searchUtmp pid ttyName file = some before.length ↔ some e.lineName = ttyName) := by
    intro before e after hfile hright hbefore
    rw [← found_iff hright]
    apply findIdx?_split hfile
    intro x hx
    rw [Bool.eq_false_iff]
    exact fun hfound => hbefore x hx (isRight_of_found hfound)
  constructor
  · intro h before e after hfile hright hbefore
    exact (hfirst hfile hright hbefore).mp (h.first before e after hfile hright hbefore)
  · intro h
    refine ⟨fun before e after hfile hright hbefore => ?_, ?_⟩
    · exact (hfirst hfile hright hbefore).mpr (h before e after hfile hright hbefore)
    · rw [startEntry_eq_empty_iff]
      refine ⟨fun hnone e he hright => ?_, searchUtmp_of_none⟩
      have hmem : ∃ e ∈ file, e.IsRight pid ttyName := ⟨e, he, hright⟩
      obtain ⟨before, e', after, hfile, hright', hbefore⟩ := exists_first_mem hmem
      have hspelt := h before e' after hfile hright' hbefore
      rw [(hfirst hfile hright' hbefore).mpr hspelt] at hnone
      exact absurd hnone (by simp)

end

/-- The record is there, as the function wrote it for terminal `tty1`: the search passes it
by, and the function starts from an empty one. -/
theorem dev_prefix_hides_record :
    let a : UtmpInputs := ⟨42, some (asciiBytes "/dev/tty1"), some (asciiBytes "1"), none, none, none, 0, 0⟩
    let own := logUtmpEntry a []
    own.lineName = asciiBytes "tty1" ∧ own.isOfProcess 42 = true ∧
      SameTerminal own.lineName (asciiBytes "/dev/tty1") ∧
      searchUtmp 42 (some (asciiBytes "/dev/tty1")) [own] = none := by
  decide

/-! ## What it has written itself -/

theorem length_cstring_le (s rest : List UInt8) : (cstring (s ++ 0 :: rest)).length ≤ s.length := by
  induction s with
  | nil => simp [cstring]
  | cons c s ih =>
    rw [cstring, List.cons_append, List.takeWhile_cons]
    split
    · exact Nat.succ_le_succ ih
    · exact Nat.zero_le _

/-- What is copied into an empty field ends at a `NUL`. -/
theorem strncpy_zeros (n : ℕ) (s : List UInt8) :
    strncpy (List.replicate (n + 1) 0) n s =
      s.take n ++ 0 :: List.replicate (n - s.length) 0 := by
  have hlast : (List.replicate (n + 1) (0 : UInt8)).drop n = [0] := by
    rw [List.drop_replicate, Nat.add_sub_cancel_left]
    rfl
  rw [strncpy, hlast, List.append_assoc, ← List.replicate_succ', List.replicate_succ]

/-- **The function does not find its own records again**: one that it made from an empty
record, for a terminal below `/dev/`, is passed by the next time. -/
theorem searchUtmp_own_record {a : UtmpInputs} {file : List UtmpEntry} {name : List UInt8}
    (hname : a.ttyName = some (asciiBytes "/dev/" ++ name))
    (hstart : startEntry a.pid a.ttyName file = {}) :
    searchUtmp a.pid a.ttyName [logUtmpEntry a file] = none := by
  have hbytes : (asciiBytes "/dev/").length = 5 := rfl
  have hdev : ttyNoDevName (asciiBytes "/dev/" ++ name) = name := by
    rw [ttyNoDevName, ← hbytes, List.take_left, if_pos rfl, List.drop_left]
  have hline : (logUtmpEntry a file).line =
      name.take 31 ++ 0 :: List.replicate (31 - name.length) 0 := by
    rw [logUtmpEntry, hstart, hname]
    simp only [Option.elim, hdev]
    exact strncpy_zeros 31 name
  -- what is read back is no longer than the name without `/dev/`
  have hlen : (logUtmpEntry a file).lineName.length ≤ name.length := by
    rw [UtmpEntry.lineName, hline]
    simp only [List.append_assoc, List.cons_append]
    exact (length_cstring_le _ _).trans (List.length_take_le' 31 name)
  apply List.findIdx?_eq_none_iff.mpr
  intro e he
  obtain rfl := List.mem_singleton.mp he
  rw [Bool.and_eq_false_iff]
  right
  rw [Bool.eq_false_iff]
  intro hsame
  rw [isTtySame_some_iff, hname] at hsame
  have := congrArg List.length (Option.some.inj hsame)
  rw [List.length_append, hbytes] at this
  omega

/-! ## The terminal's id -/

/-- `isdigit`, of a byte. -/
def isDigitByte (c : UInt8) : Bool := 48 ≤ c && c ≤ 57

/-- What the scan of a name for its first digit comes to. -/
structure TtyIdScan where
  /-- the positions read, in order -/
  touched : List ℕ
  /-- `id` -/
  id : Option (List UInt8)
  /-- the function has returned; otherwise it has left the memory -/
  returned : Bool
  deriving DecidableEq, Repr

/-- Some positions in front of a scan. -/
def TtyIdScan.after (w : TtyIdScan) (positions : List ℕ) : TtyIdScan :=
  { w with touched := positions ++ w.touched }

/-- `g_strdup` of the string at position `i`, over the memory from there on: it reads up to
the terminator. -/
def strdupAt (i : ℕ) (memory : List UInt8) : TtyIdScan :=
  ⟨List.range' i ((cstring memory).length + 1),
    if (0 : UInt8) ∈ memory then some (cstring memory) else none, decide ((0 : UInt8) ∈ memory)⟩

/-- The loop of `_get_tty_id`, with `tmp` at position `i` and the memory from there on.
What it tests for the end is `tmp`, which no step makes `NULL`. -/
def scanTtyId (i : ℕ) : List UInt8 → TtyIdScan
  | [] => ⟨[i], none, false⟩
  | c :: rest =>
    if isDigitByte c then (strdupAt i (c :: rest)).after [i]
    else (scanTtyId (i + 1) rest).after [i]

/-- `_get_tty_id` of a name in memory: its bytes, the terminator, and what lies behind. -/
def getTtyId (ttyName : Option (List UInt8)) (beyond : List UInt8) : TtyIdScan :=
  match ttyName with
  | none => ⟨[], none, true⟩
  | some name => scanTtyId 0 (name ++ 0 :: beyond)

/-- The part of a name from its first digit on, if it has one. -/
def digitSuffix (name : List UInt8) : Option (List UInt8) :=
  if name.any isDigitByte then some (name.dropWhile fun c => !isDigitByte c) else none

/-- The scan returns, has read nothing behind the terminator, and gives the part of the name
from its first digit on. -/
structure StaysInName (ttyName : Option (List UInt8)) (beyond : List UInt8) : Prop where
  returned : (getTtyId ttyName beyond).returned = true
  inside : ∀ i ∈ (getTtyId ttyName beyond).touched, ∃ name, ttyName = some name ∧ i ≤ name.length
  id : (getTtyId ttyName beyond).id = ttyName.bind digitSuffix

section

variable {before after beyond name : List UInt8} {d : UInt8} {i : ℕ}

theorem isDigitByte_zero : isDigitByte 0 = false := rfl

/-- Where there is no digit, the scan goes on behind. -/
theorem scanTtyId_append (hbefore : ∀ c ∈ before, isDigitByte c = false) (memory : List UInt8) :
    scanTtyId i (before ++ memory) =
      (scanTtyId (i + before.length) memory).after (List.range' i before.length) := by
  induction before generalizing i with
  | nil => rfl
  | cons c before ih =>
    obtain ⟨hc, hbefore⟩ := List.forall_mem_cons.mp hbefore
    rw [List.cons_append, scanTtyId, hc, if_neg Bool.false_ne_true, ih hbefore, List.length_cons,
      List.range'_succ, Nat.add_right_comm, Nat.add_assoc]
    rfl

/-- A string in memory is what is in front of its terminator. -/
theorem cstring_terminated (hname : (0 : UInt8) ∉ name) (beyond : List UInt8) :
    cstring (name ++ 0 :: beyond) = name := by
  rw [cstring, List.takeWhile_append_of_pos, List.takeWhile_cons_of_neg, List.append_nil]
  · simp
  · intro c hc
    have hne : c ≠ 0 := fun h0 => hname (h0 ▸ hc)
    simpa using hne

/-- A string that has its terminator is copied. -/
theorem strdupAt_terminated (hname : (0 : UInt8) ∉ name) (beyond : List UInt8) :
    strdupAt i (name ++ 0 :: beyond) = ⟨List.range' i (name.length + 1), some name, true⟩ := by
  simp [strdupAt, cstring_terminated hname]

/-- **With a digit** the scan reads the name and its terminator, and gives the rest of the
name from there. -/
theorem scanTtyId_digit (hbefore : ∀ c ∈ before, isDigitByte c = false)
    (hd : isDigitByte d = true) (hname : (0 : UInt8) ∉ d :: after) (beyond : List UInt8) :
    scanTtyId i (before ++ d :: after ++ 0 :: beyond) =
      ⟨List.range' i before.length ++ (i + before.length) ::
        List.range' (i + before.length) (after.length + 2), some (d :: after), true⟩ := by
  rw [List.append_assoc, scanTtyId_append hbefore, List.cons_append, scanTtyId, hd, if_pos rfl,
    ← List.cons_append, strdupAt_terminated hname]
  rfl

/-- **Without a digit** the scan takes the terminator for one more character, and gives
whatever it finds behind. -/
theorem scanTtyId_no_digit (hname : ∀ c ∈ name, isDigitByte c = false) (beyond : List UInt8) :
    scanTtyId i (name ++ 0 :: beyond) =
      (scanTtyId (i + (name.length + 1)) beyond).after (List.range' i (name.length + 1)) := by
  have hterm : ∀ c ∈ name ++ [0], isDigitByte c = false := by
    intro c hc
    obtain hc | hc := List.mem_append.mp hc
    · exact hname c hc
    · rw [List.mem_singleton.mp hc, isDigitByte_zero]
  rw [List.append_cons, scanTtyId_append hterm, List.length_append, List.length_singleton]

/-- The first position a scan reads is the one it is at. -/
theorem mem_touched_scanTtyId (memory : List UInt8) : i ∈ (scanTtyId i memory).touched := by
  cases memory with
  | nil => exact List.mem_singleton_self i
  | cons c rest =>
    rw [scanTtyId]
    split
    · exact List.mem_cons_self
    · exact List.mem_cons_self

/-- A name with a digit, split at the first one. -/
theorem exists_first_digit (h : ∃ c ∈ name, isDigitByte c = true) :
    ∃ before d after, name = before ++ d :: after ∧ isDigitByte d = true ∧
      ∀ c ∈ before, isDigitByte c = false := by
  obtain ⟨before, d, after, hsplit, hd, hbefore⟩ := exists_first_mem h
  exact ⟨before, d, after, hsplit, hd, fun c hc => Bool.eq_false_iff.mpr (hbefore c hc)⟩

theorem digitSuffix_split (hbefore : ∀ c ∈ before, isDigitByte c = false)
    (hd : isDigitByte d = true) : digitSuffix (before ++ d :: after) = some (d :: after) := by
  have hany : (before ++ d :: after).any isDigitByte = true := by simp [hd]
  rw [digitSuffix, if_pos hany, List.dropWhile_append_of_pos, List.dropWhile_cons_of_neg]
  · simp [hd]
  · intro c hc
    simp [hbefore c hc]

/-- A name with a digit is scanned up to its terminator at most. -/
theorem staysInName_of_digit (hnul : (0 : UInt8) ∉ name)
    (hdigit : ∃ c ∈ name, isDigitByte c = true) (beyond : List UInt8) :
    StaysInName (some name) beyond := by
  obtain ⟨before, d, after, rfl, hd, hbefore⟩ := exists_first_digit hdigit
  have hafter : (0 : UInt8) ∉ d :: after := fun h0 => hnul (List.mem_append_right before h0)
  have hscan := scanTtyId_digit (i := 0) hbefore hd hafter beyond
  refine ⟨congrArg TtyIdScan.returned hscan, fun i hi => ⟨_, rfl, ?_⟩, ?_⟩
  · rw [getTtyId, hscan] at hi
    rw [List.length_append, List.length_cons]
    obtain hi | hi := List.mem_append.mp hi
    · rw [List.mem_range'_1] at hi
      omega
    · obtain rfl | hi := List.mem_cons.mp hi
      · omega
      · rw [List.mem_range'_1] at hi
        omega
  · exact (congrArg TtyIdScan.id hscan).trans (digitSuffix_split hbefore hd).symm

/-- Of a name without a digit, the byte behind the terminator is read. -/
theorem touched_beyond (hname : ∀ c ∈ name, isDigitByte c = false) (beyond : List UInt8) :
    name.length + 1 ∈ (getTtyId (some name) beyond).touched := by
  rw [getTtyId, scanTtyId_no_digit hname, Nat.zero_add]
  exact List.mem_append_right _ (mem_touched_scanTtyId beyond)

/-- **When the scan stays in the name**: when there is none, or it has a digit. Without one
it has read beyond the terminator, whatever lies there. -/
theorem staysInName_iff {ttyName : Option (List UInt8)}
    (hname : ∀ name, ttyName = some name → (0 : UInt8) ∉ name) (beyond : List UInt8) :
    StaysInName ttyName beyond ↔
      ∀ name, ttyName = some name → ∃ c ∈ name, isDigitByte c = true := by
  cases ttyName with
  | none => exact ⟨fun _ _ h => absurd h (by simp), fun _ => ⟨rfl, by simp [getTtyId], rfl⟩⟩
  | some name =>
    constructor
    · rintro h name' hname'
      obtain rfl := Option.some.inj hname'
      by_contra hdigit
      have hnone : ∀ c ∈ name, isDigitByte c = false := by
        intro c hc
        rw [Bool.eq_false_iff]
        exact fun hd => hdigit ⟨c, hc, hd⟩
      obtain ⟨name', hname', hle⟩ := h.inside _ (touched_beyond hnone beyond)
      obtain rfl := Option.some.inj hname'
      omega
    · exact fun h => staysInName_of_digit (hname name rfl) (h name rfl) beyond

end

/-- The first console: the scan ends at the terminator. -/
theorem staysInName_tty1 :
    StaysInName (some (asciiBytes "tty1")) [] ∧
      (getTtyId (some (asciiBytes "tty1")) []).id = some (asciiBytes "1") := by
  refine ⟨(staysInName_iff ?_ []).mpr ?_, rfl⟩
  · rintro name hname
    obtain rfl := Option.some.inj hname
    simp [asciiBytes]
  · rintro name hname
    obtain rfl := Option.some.inj hname
    exact ⟨49, by simp [asciiBytes], rfl⟩

/-- The system console has no number: the scan reads on behind the terminator, and what it
gives is no part of the name. -/
theorem scan_leaves_console :
    (getTtyId (some (asciiBytes "console")) [55, 0]).id = some [55] ∧
      ¬StaysInName (some (asciiBytes "console")) [55, 0] := by
  have hid : (getTtyId (some (asciiBytes "console")) [55, 0]).id = some [55] := rfl
  have hsuffix : digitSuffix (asciiBytes "console") = none := rfl
  refine ⟨hid, fun h => ?_⟩
  have hright := h.id
  rw [hid, Option.bind_some, hsuffix] at hright
  exact absurd hright (by simp)

/-! ## The record has an id -/

/-- `tty_id` in `tlm_utils_log_utmp_entry`: what the scan makes of the terminal without its
`/dev/`. -/
def ttyIdOf (ttyName : Option (List UInt8)) (beyond : List UInt8) : Option (List UInt8) :=
  (getTtyId (ttyName.map ttyNoDevName) beyond).id

section

variable {a : UtmpInputs} {file : List UtmpEntry} {beyond name : List UInt8}

theorem not_mem_ttyNoDevName (hnul : (0 : UInt8) ∉ name) : (0 : UInt8) ∉ ttyNoDevName name := by
  unfold ttyNoDevName
  split
  · exact fun h => hnul (List.mem_of_mem_drop h)
  · exact hnul

/-- **A record of a numbered terminal has an id**, and passes the tests of the search that
do not look at the terminal. -/
theorem isOfProcess_logUtmpEntry (hname : a.ttyName = some name) (hnul : (0 : UInt8) ∉ name)
    (hdigit : ∃ c ∈ ttyNoDevName name, isDigitByte c = true)
    (hid : a.ttyId = ttyIdOf a.ttyName beyond) :
    (logUtmpEntry a file).isOfProcess a.pid = true := by
  obtain ⟨before, d, after, hsplit, hd, hbefore⟩ := exists_first_digit hdigit
  have hstays : StaysInName (some (ttyNoDevName name)) beyond :=
    staysInName_of_digit (not_mem_ttyNoDevName hnul) hdigit beyond
  have hscan : a.ttyId = some (d :: after) := by
    rw [hid, hname, ttyIdOf, Option.map_some, hstays.id, Option.bind_some, hsplit,
      digitSuffix_split hbefore hd]
  have hne : d ≠ 0 := fun h0 => by simp [h0, isDigitByte_zero] at hd
  simp [UtmpEntry.isOfProcess, logUtmpEntry, hscan, strncpy, hne]

/-- **A record without a terminal has none**: nobody's search will stop at it. -/
theorem not_isOfProcess_logUtmpEntry {pid : ℤ} (hname : a.ttyName = none)
    (hid : a.ttyId = ttyIdOf a.ttyName beyond) :
    (logUtmpEntry a file).isOfProcess pid = false := by
  have hscan : a.ttyId = none := by
    rw [hid, hname]
    rfl
  have hstart : startEntry a.pid a.ttyName file = {} := by
    rw [startEntry_eq_empty_iff, hname]
    apply searchUtmp_of_none
    rintro e - ⟨-, name, h, -⟩
    exact absurd h (by simp)
  simp [UtmpEntry.isOfProcess, logUtmpEntry, hscan, hstart]

/-- What the function writes into an empty record is read back as the terminal without its
`/dev/`, if it fits. -/
theorem lineName_logUtmpEntry (hname : a.ttyName = some name) (hnul : (0 : UInt8) ∉ name)
    (hfits : (ttyNoDevName name).length ≤ 31) (hstart : startEntry a.pid a.ttyName file = {}) :
    (logUtmpEntry a file).lineName = ttyNoDevName name := by
  have hline : (logUtmpEntry a file).line =
      ttyNoDevName name ++ 0 :: List.replicate (31 - (ttyNoDevName name).length) 0 := by
    have hzeros := strncpy_zeros 31 (ttyNoDevName name)
    rw [List.take_of_length_le hfits] at hzeros
    rw [logUtmpEntry, hstart, hname]
    exact hzeros
  rw [UtmpEntry.lineName, hline]
  simp only [List.append_assoc, List.cons_append]
  exact cstring_terminated (not_mem_ttyNoDevName hnul) _

/-- **When the function finds its own record again**: for a numbered terminal that is not
below `/dev/`. -/
theorem searchUtmp_own_record_iff (hname : a.ttyName = some name) (hnul : (0 : UInt8) ∉ name)
    (hdigit : ∃ c ∈ ttyNoDevName name, isDigitByte c = true)
    (hid : a.ttyId = ttyIdOf a.ttyName beyond) (hfits : (ttyNoDevName name).length ≤ 31)
    (hstart : startEntry a.pid a.ttyName file = {}) :
    searchUtmp a.pid a.ttyName [logUtmpEntry a file] = some 0 ↔
      name.take 5 ≠ asciiBytes "/dev/" := by
  have hproc : (logUtmpEntry a file).isOfProcess a.pid = true :=
    isOfProcess_logUtmpEntry hname hnul hdigit hid
  have hfound : searchUtmp a.pid a.ttyName [logUtmpEntry a file] = some 0 ↔
      ((logUtmpEntry a file).isOfProcess a.pid &&
        isTtySame (some (logUtmpEntry a file).lineName) a.ttyName) = true :=
    findIdx?_split (List.nil_append _).symm (fun _ h => absurd h List.not_mem_nil)
  rw [hfound, hproc, Bool.true_and, isTtySame_some_iff, hname,
    lineName_logUtmpEntry hname hnul hfits hstart, Option.some_inj]
  unfold ttyNoDevName
  split
  next hdev =>
    refine ⟨fun h => ?_, fun h => absurd hdev h⟩
    -- the name would be its own end
    have hlen := congrArg List.length h
    have htake := congrArg List.length hdev
    have hbytes : (asciiBytes "/dev/").length = 5 := rfl
    rw [List.length_drop] at hlen
    rw [List.length_take, hbytes] at htake
    omega
  next hdev => exact ⟨fun _ => hdev, fun _ => rfl⟩

end

end Tlm
