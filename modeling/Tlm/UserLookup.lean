import Mathlib.Algebra.Group.Nat.Defs
import Mathlib.Data.Nat.Notation

/-!
# Looking users up (`tlm-utils.c`)

`getpwnam_r` and `getpwuid_r` put an entry into a buffer of the caller's, and ask with
`ERANGE` for a larger one. Five functions try again with twice the size, and look at
the outcome in two ways. The ones that return a string test the **entry** they have
got. The ones that return a number test the **result** of the call, which is `0` as
well when there is no such user; then there is no entry, and they read it all the same.

The first size is what `sysconf` says, stored into an unsigned variable. `-1`, for "no
limit", becomes the largest size there is, which no allocation can serve, and
`g_realloc` ends the process.

`lookups_iff` is the result: the five functions answer as documented exactly if the
user exists and the sizes they try come to one that holds the entry and can be had.
-/

namespace Tlm

namespace UserLookup

/-- `struct passwd`. -/
structure Passwd where
  /-- `pw_name` -/
  name : String
  /-- `pw_uid` -/
  uid : UInt32
  /-- `pw_gid` -/
  gid : UInt32
  /-- `pw_dir` -/
  dir : String
  /-- `pw_shell` -/
  shell : String
  deriving DecidableEq, Repr

/-- The users of the system, and how large a buffer a call needs. -/
structure PasswdDb where
  entries : List Passwd
  /-- for `getpwnam_r` -/
  nameSize : String → ℕ := fun _ => 0
  /-- for `getpwuid_r` -/
  uidSize : UInt32 → ℕ := fun _ => 0

/-- The largest block that can be allocated; no allocation is larger than `PTRDIFF_MAX`. -/
structure Memory where
  available : ℕ
  available_lt : available < 2 ^ 63

/-- A call of `getpwnam_r` or `getpwuid_r`, but for its buffer. -/
structure PasswdQuery where
  /-- the size of buffer it needs -/
  need : ℕ
  /-- the entry, if there is one -/
  entry : Option Passwd

/-- What such a call answers. -/
inductive PasswdAnswer : Type where
  | erange
  /-- result `0`; the entry is `NULL` if there is no such user -/
  | ok (entry : Option Passwd)

/-- The call with a buffer. -/
def PasswdQuery.call (q : PasswdQuery) (size : ℕ) : PasswdAnswer :=
  if size < q.need then .erange else .ok q.entry

namespace PasswdDb

/-- The entry of a user. -/
def byName (db : PasswdDb) (name : String) : Option Passwd := db.entries.find? (·.name = name)

/-- The entry of a uid. -/
def byUid (db : PasswdDb) (uid : UInt32) : Option Passwd := db.entries.find? (·.uid = uid)

/-- `getpwnam_r`. -/
def getpwnam (db : PasswdDb) (name : String) : PasswdQuery := ⟨db.nameSize name, db.byName name⟩

/-- `getpwuid_r`. -/
def getpwuid (db : PasswdDb) (uid : UInt32) : PasswdQuery := ⟨db.uidSize uid, db.byUid uid⟩

end PasswdDb

/-! ## The loop -/

/-- How the loop over the buffer sizes ends. -/
inductive RetryEnd : Type where
  /-- not yet -/
  | running
  /-- a call gave something other than `ERANGE` -/
  | answered (entry : Option Passwd)
  /-- `g_realloc` was asked for nothing, has freed the buffer and given `NULL` -/
  | freed
  /-- `g_realloc` could not serve the size and has ended the process -/
  | aborted
  deriving DecidableEq, Repr

/-- `for (; NULL != (tmp = g_realloc (buf, size)); size *= 2)`, for at most `fuel` rounds. -/
def retry (mem : Memory) (q : PasswdQuery) : ℕ → ℕ → RetryEnd
  | 0, _ => .running
  | fuel + 1, size =>
    if size = 0 then .freed
    else if mem.available < size then .aborted
    else match q.call size with
      | .erange => retry mem q fuel (size * 2 % 2 ^ 64)
      | .ok entry => .answered entry

/-- `sizeof (struct passwd)`. -/
def sizeofPasswd : ℕ := 48

/-- The first size, from the value of `sysconf (_SC_GETPW_R_SIZE_MAX)`. One of the functions
takes `sizeof (struct passwd)` itself for large enough. -/
def startSize (strict : Bool) (sysconf : Int64) : ℕ :=
  let size := sysconf.toUInt64.toNat
  if size < sizeofPasswd ∨ (strict = false ∧ size = sizeofPasswd) then 1024 else size

/-- What a lookup comes to. -/
inductive Lookup (α : Type) : Type where
  | returned (value : α)
  /-- `g_realloc` has ended the process -/
  | aborted
  /-- an entry that is not there was read, or a buffer freed twice -/
  | crashed
  /-- the loop goes on -/
  | running
  deriving DecidableEq, Repr

/-- The rounds a loop can take: the size doubles, and has 64 bits. -/
def rounds : ℕ := 65

/-- `tlm_user_get_uid` and `tlm_user_get_gid`, for a field: a result `0` is taken for an
entry. -/
def lookupId (strict : Bool) (field : Passwd → UInt32) (mem : Memory) (sysconf : Int64)
    (q : PasswdQuery) : Lookup UInt32 :=
  match retry mem q rounds (startSize strict sysconf) with
  | .answered (some entry) => .returned (field entry)
  | .answered none => .crashed
  | .freed => .crashed
  | .aborted => .aborted
  | .running => .running

/-- `tlm_user_get_name`, `tlm_user_get_home_dir` and `tlm_user_get_shell`, for a field. -/
def lookupString (field : Passwd → String) (mem : Memory) (sysconf : Int64) (q : PasswdQuery) :
    Lookup (Option String) :=
  match retry mem q rounds (startSize false sysconf) with
  | .answered entry => .returned (entry.map field)
  | .freed => .crashed
  | .aborted => .aborted
  | .running => .running

/-- `tlm_user_get_uid`. -/
def userGetUid (db : PasswdDb) (mem : Memory) (sysconf : Int64) (username : String) :
    Lookup UInt32 := lookupId true Passwd.uid mem sysconf (db.getpwnam username)

/-- `tlm_user_get_gid`. -/
def userGetGid (db : PasswdDb) (mem : Memory) (sysconf : Int64) (username : String) :
    Lookup UInt32 := lookupId false Passwd.gid mem sysconf (db.getpwnam username)

/-- `tlm_user_get_name`. -/
def userGetName (db : PasswdDb) (mem : Memory) (sysconf : Int64) (userId : UInt32) :
    Lookup (Option String) := lookupString Passwd.name mem sysconf (db.getpwuid userId)

/-- `tlm_user_get_home_dir`. -/
def userGetHomeDir (db : PasswdDb) (mem : Memory) (sysconf : Int64) (username : String) :
    Lookup (Option String) := lookupString Passwd.dir mem sysconf (db.getpwnam username)

/-- `tlm_user_get_shell`. -/
def userGetShell (db : PasswdDb) (mem : Memory) (sysconf : Int64) (username : String) :
    Lookup (Option String) := lookupString Passwd.shell mem sysconf (db.getpwnam username)

/-- The five lookups return the field of the entry, and `-1` or `NULL` if there is none. -/
structure LooksUp (db : PasswdDb) (mem : Memory) (sysconf : Int64) (username : String)
    (userId : UInt32) : Prop where
  uid : userGetUid db mem sysconf username =
    .returned ((db.byName username).elim (-1) Passwd.uid)
  gid : userGetGid db mem sysconf username =
    .returned ((db.byName username).elim (-1) Passwd.gid)
  name : userGetName db mem sysconf userId = .returned ((db.byUid userId).map Passwd.name)
  homeDir : userGetHomeDir db mem sysconf username =
    .returned ((db.byName username).map Passwd.dir)
  shell : userGetShell db mem sysconf username =
    .returned ((db.byName username).map Passwd.shell)

/-- A size that comes from doubling the first one is large enough, and can be had. -/
def Fits (need available size : ℕ) : Prop :=
  ∃ k, need ≤ size * 2 ^ k ∧ size * 2 ^ k ≤ available

section

variable {mem : Memory} {q : PasswdQuery} {size fuel : ℕ} {strict : Bool} {sysconf : Int64}

theorem fits_double {need available : ℕ} (h : size < need) :
    Fits need available size ↔ Fits need available (size * 2) := by
  constructor
  · rintro ⟨_ | k, hneed, hle⟩
    · rw [Nat.pow_zero, Nat.mul_one] at hneed
      omega
    · rw [Nat.pow_succ', ← Nat.mul_assoc] at hneed hle
      exact ⟨k, hneed, hle⟩
  · rintro ⟨k, hneed, hle⟩
    refine ⟨k + 1, ?_, ?_⟩
    · rwa [Nat.pow_succ', ← Nat.mul_assoc]
    · rwa [Nat.pow_succ', ← Nat.mul_assoc]

theorem not_fits_of_lt {need available : ℕ} (h : available < size) : ¬Fits need available size := by
  rintro ⟨k, -, hle⟩
  have hmono : size * 1 ≤ size * 2 ^ k := Nat.mul_le_mul_left size Nat.one_le_two_pow
  omega

/-- **The loop**: it ends, with an answer if a size fits. By induction on the doublings that
the memory leaves room for. -/
theorem retry_spec (hsize : 0 < size) (hfuel : mem.available < size * 2 ^ fuel) :
    (Fits q.need mem.available size ∧ retry mem q (fuel + 1) size = .answered q.entry) ∨
      (¬Fits q.need mem.available size ∧ retry mem q (fuel + 1) size = .aborted) := by
  have hmem := mem.available_lt
  induction fuel generalizing size with
  | zero =>
    rw [Nat.pow_zero, Nat.mul_one] at hfuel
    refine .inr ⟨not_fits_of_lt hfuel, ?_⟩
    rw [retry, if_neg (Nat.ne_of_gt hsize), if_pos hfuel]
  | succ fuel ih =>
    rw [retry, if_neg (Nat.ne_of_gt hsize)]
    by_cases hlt : mem.available < size
    · rw [if_pos hlt]
      exact .inr ⟨not_fits_of_lt hlt, rfl⟩
    · rw [if_neg hlt, PasswdQuery.call]
      by_cases hneed : size < q.need
      · -- what could be had has less than 63 bits, so the doubled size does not wrap
        rw [if_pos hneed, fits_double hneed, Nat.mod_eq_of_lt (by omega)]
        refine ih (by omega) ?_
        rwa [Nat.mul_assoc, ← Nat.pow_succ']
      · rw [if_neg hneed]
        refine .inl ⟨⟨0, ?_, ?_⟩, rfl⟩ <;> rw [Nat.pow_zero, Nat.mul_one] <;> omega

theorem startSize_pos : 0 < startSize strict sysconf := by
  unfold startSize
  dsimp only
  split
  · decide
  · rename_i h
    simp only [sizeofPasswd, not_or, Nat.not_lt] at h
    omega

/-- The loop of each function. -/
theorem retry_start (mem : Memory) (q : PasswdQuery) (strict : Bool) (sysconf : Int64) :
    (Fits q.need mem.available (startSize strict sysconf) ∧
      retry mem q rounds (startSize strict sysconf) = .answered q.entry) ∨
    (¬Fits q.need mem.available (startSize strict sysconf) ∧
      retry mem q rounds (startSize strict sysconf) = .aborted) := by
  apply retry_spec startSize_pos
  have hpos := @startSize_pos strict sysconf
  have hmem := mem.available_lt
  have hmul : 1 * 2 ^ 64 ≤ startSize strict sysconf * 2 ^ 64 := Nat.mul_le_mul_right _ hpos
  omega

theorem lookupId_eq_iff (field : Passwd → UInt32) :
    lookupId strict field mem sysconf q = .returned (q.entry.elim (-1) field) ↔
      q.entry.isSome ∧ Fits q.need mem.available (startSize strict sysconf) := by
  unfold lookupId
  obtain ⟨hfits, hretry⟩ | ⟨hnot, hretry⟩ := retry_start mem q strict sysconf
  · rw [hretry]
    cases q.entry with
    | none => simp
    | some entry => simp [hfits]
  · rw [hretry]
    simp [hnot]

theorem lookupString_eq_iff (field : Passwd → String) :
    lookupString field mem sysconf q = .returned (q.entry.map field) ↔
      Fits q.need mem.available (startSize false sysconf) := by
  unfold lookupString
  obtain ⟨hfits, hretry⟩ | ⟨hnot, hretry⟩ := retry_start mem q false sysconf
  · rw [hretry]
    simp [hfits]
  · rw [hretry]
    simp [hnot]

end

/-- **When lookups are total and correct**: the user exists, and for each call some doubling
of the first size holds the entry and can be had. -/
theorem lookups_iff (db : PasswdDb) (mem : Memory) (sysconf : Int64) (username : String)
    (userId : UInt32) :
    LooksUp db mem sysconf username userId ↔
      (db.byName username).isSome ∧
        Fits (db.nameSize username) mem.available (startSize true sysconf) ∧
        Fits (db.nameSize username) mem.available (startSize false sysconf) ∧
        Fits (db.uidSize userId) mem.available (startSize false sysconf) := by
  constructor
  · intro h
    obtain ⟨hsome, hstrict⟩ := (lookupId_eq_iff _).mp h.uid
    exact ⟨hsome, hstrict, (lookupString_eq_iff _).mp h.homeDir, (lookupString_eq_iff _).mp h.name⟩
  · rintro ⟨hsome, hstrict, hname, huid⟩
    exact ⟨(lookupId_eq_iff _).mpr ⟨hsome, hstrict⟩, (lookupId_eq_iff _).mpr ⟨hsome, hname⟩,
      (lookupString_eq_iff _).mpr huid, (lookupString_eq_iff _).mpr hname,
      (lookupString_eq_iff _).mpr hname⟩

/-- Where `sysconf` says `-1` no size can be had, and every lookup ends the process. -/
theorem not_fits_minus_one (mem : Memory) (need : ℕ) (strict : Bool) :
    ¬Fits need mem.available (startSize strict (-1)) := by
  apply not_fits_of_lt
  have hstart : startSize strict (-1) = 2 ^ 64 - 1 := by cases strict <;> decide
  have hmem := mem.available_lt
  rw [hstart]
  omega

/-- An unknown name, on a system whose buffers are large enough: both numbers are read from
an entry that is not there. Where `sysconf` says `-1`, the process ends for every name. -/
theorem unknown_name_crashes :
    let db : PasswdDb := { entries := [⟨"guest", 5000, 100, "/home/guest", "/bin/sh"⟩] }
    let mem : Memory := ⟨2 ^ 30, by decide⟩
    userGetUid db mem 1024 "test01234567" = .crashed ∧
      userGetGid db mem 1024 "test01234567" = .crashed ∧
      userGetHomeDir db mem 1024 "test01234567" = .returned none ∧
      userGetUid db mem (-1) "guest" = .aborted := by
  decide

end UserLookup

end Tlm
