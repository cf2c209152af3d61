import Mathlib.Algebra.Group.Int.Defs
import Mathlib.Algebra.Group.Nat.Defs
import Mathlib.Data.Int.Init
import Mathlib.Data.Nat.Notation

/-!
# The configuration store (`tlm-config.c`)

A configuration is a two-level table: group name, then key, to the value's
text. Values are stored as text and parsed again at **every** read, by the C
conversion the accessor happens to use; the conversions are spelled out here
(`scanInt`, `scanUInt`) with their blanks, signs and overflow, because the
flags and counts the daemon branches on go through them.

A `NULL` group or key name is `none`. `tlm_config_get_group` refuses a `NULL`
or an empty group and the string readers a `NULL` or an empty key; the
default-taking readers then behave as the source does, which is not always the
default they were given.
-/

namespace Tlm

/-! ## C conversions -/

/-- The characters `isspace` accepts in the C locale. -/
def isSpace (c : Char) : Bool :=
  c = ' ' || c = '\t' || c = '\n' || c = '\x0b' || c = '\x0c' || c = '\r'

/-- The decimal value of a list of digits. -/
def digitsValue (ds : List Char) : ℕ :=
  ds.foldl (fun n c => 10 * n + (c.toNat - '0'.toNat)) 0

/-- A leading numeral after blanks: whether it is signed with a minus, and its
digits' value. `none` when no digit stands where one is required. -/
def scanNumeral (s : List Char) : Option (Bool × ℕ) :=
  let rest := s.dropWhile isSpace
  let (neg, rest) := match rest with
    | '-' :: t => (true, t)
    | '+' :: t => (false, t)
    | t => (false, t)
  match rest.takeWhile Char.isDigit with
  | [] => none
  | ds => some (neg, digitsValue ds)

/-- `sscanf (s, "%d", &value)`: the numeral saturates at the 64-bit `long` and
is then stored into an `int`. -/
def scanInt (s : String) : Option ℤ :=
  (scanNumeral s.toList).map fun (neg, n) =>
    Int.bmod (if neg then max (-(n : ℤ)) (-2 ^ 63) else min (n : ℤ) (2 ^ 63 - 1)) (2 ^ 32)

/-- `strtoul`, of a numeral: a minus sign is accepted and negates modulo `2 ^ 64`; a numeral
that does not fit comes out as the largest number, with a sign or without. -/
def strtoul (neg : Bool) (n : ℕ) : ℕ :=
  if 2 ^ 64 ≤ n then 2 ^ 64 - 1 else if neg then (2 ^ 64 - n) % 2 ^ 64 else n

/-- `sscanf (s, "%u", &value)`: the low 32 bits of what `strtoul` gives are stored. -/
def scanUInt (s : String) : Option ℕ :=
  (scanNumeral s.toList).map fun (neg, n) => strtoul neg n % 2 ^ 32

/-- `g_ascii_strncasecmp (s, p, strlen (p)) == 0` for a lower-case `p`. -/
def hasPrefixNoCase : List Char → List Char → Bool
  | [], _ => true
  | _ :: _, [] => false
  | p :: ps, c :: cs => c.toLower = p && hasPrefixNoCase ps cs

/-! ## The store and its readers -/

/-- The configuration table. -/
structure Config where
  /-- `config_table`: the groups, each a table of keys -/
  configTable : String → Option (String → Option String)

namespace Config

/-- The group every setting without a group of its own belongs to. -/
def general : String := "General"

/-- The configuration without groups: what is left when no file was loaded. -/
def empty : Config := ⟨fun _ => none⟩

/-- A configuration with the given keys in `General` and nothing else. -/
def ofGeneral (keys : String → Option String) : Config :=
  ⟨fun g => if g = general then some keys else none⟩

/-- `tlm_config_get_group`. -/
def getGroup (cfg : Config) (group : Option String) : Option (String → Option String) :=
  match group with
  | none => none
  | some g => if g.isEmpty then none else cfg.configTable g

/-- `tlm_config_get_string`. -/
def getString (cfg : Config) (group : Option String) (key : String) : Option String :=
  if key.isEmpty then none
  else (cfg.getGroup group).bind fun table => table key

/-- `tlm_config_get_string_default`. A missing **group** gives `NULL`, not the
default: only a missing key of a present group does. -/
def getStringDefault (cfg : Config) (group : Option String) (key value : String) :
    Option String :=
  if key.isEmpty then none
  else (cfg.getGroup group).map fun table => (table key).getD value

/-- `tlm_config_get_int`. `atoi` has no way to say that it read no digit: it gives
`0` then, and `retval` is for a missing key only. -/
def getInt (cfg : Config) (group : Option String) (key : String) (retval : ℤ) : ℤ :=
  match cfg.getString group key with
  | none => retval
  | some s => (scanInt s).getD 0

/-- `tlm_config_get_uint`. -/
def getUInt (cfg : Config) (group : Option String) (key : String) (retval : ℕ) : ℕ :=
  match cfg.getString group key with
  | none => retval
  | some s => if s.toList.head? = some '-' then retval else (scanUInt s).getD retval

/-- `tlm_config_get_boolean`. -/
def getBoolean (cfg : Config) (group : Option String) (key : String) (retval : Bool) : Bool :=
  match cfg.getString group key with
  | none => retval
  | some s =>
    if hasPrefixNoCase "false".toList s.toList || hasPrefixNoCase "no".toList s.toList then
      false
    else if hasPrefixNoCase "true".toList s.toList || hasPrefixNoCase "yes".toList s.toList then
      true
    else match scanInt s with
      | none => retval
      | some v => decide (v ≠ 0)

/-- `tlm_config_has_key`. A `NULL` group is `General` here, and here only among the
readers. -/
def hasKey (cfg : Config) (group : Option String) (key : String) : Bool :=
  (cfg.getGroup (some (group.getD general))).any fun table => (table key).isSome

/-! ### The settings the daemon reads -/

/-- `General/AUTO_LOGIN`, on unless switched off. -/
def autoLogin (cfg : Config) : Bool := cfg.getBoolean (some general) "AUTO_LOGIN" true

/-- `General/X11_SESSION`, off unless switched on. -/
def x11Session (cfg : Config) : Bool := cfg.getBoolean (some general) "X11_SESSION" false

/-- `General/NSEATS`: how many virtual seats there are. -/
def nseats (cfg : Config) : ℕ := cfg.getUInt (some general) "NSEATS" 0

/-- `ACTIVE` of a seat, on unless switched off. -/
def seatActive (cfg : Config) (seatId : String) : Bool :=
  cfg.getBoolean (some seatId) "ACTIVE" true

/-- `NWATCH` of a seat. -/
def seatNwatch (cfg : Config) (seatId : String) : ℕ := cfg.getUInt (some seatId) "NWATCH" 0

end Config

end Tlm
