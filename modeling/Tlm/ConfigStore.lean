import Mathlib.Logic.Function.Basic
import Mathlib.Data.Nat.Notation
import Mathlib.Data.List.Induction
import Tlm.Config
import Tlm.ConfigConversions

/-!
# Writing the configuration (`tlm-config.c`)

The setters print their value and store the text; a group that is not there yet is
made on the way. Everything the readers see of a configuration is `entry`, the text
a group holds for a key, except that `tlm_config_get_string_default` also sees
whether the group is there. So:

* `entry_setString` says what **one** write does to every entry at once, and
  `entry_run` what a sequence of writes does: the last write to a pair wins
  (`lastWrite`).
* A typed value comes back because its text is read back by the getter's own C
  conversion (`readsBack_of_entry`); together they are the round trip
  (`store_reads_back`).
* The setters take a `NULL` group for `General`. The readers say the same in their
  documentation and hand the `NULL` to `tlm_config_get_group`, which refuses it. The
  two readings agree only while there is no `General` (`null_is_general_iff`).
-/

namespace Tlm

namespace Config

/-! ## The setters -/

/-- `tlm_config_set_string`. -/
def setString (cfg : Config) (group : Option String) (key value : String) : Config :=
  if key.isEmpty then cfg
  else
    let group := group.getD general
    let table := (cfg.getGroup (some group)).getD fun _ => none
    ⟨Function.update cfg.configTable group (some (Function.update table key (some value)))⟩

/-- `tlm_config_set_int`; `%d` prints what `Int.repr` does. -/
def setInt (cfg : Config) (group : Option String) (key : String) (value : Int32) : Config :=
  cfg.setString group key value.toInt.repr

/-- `tlm_config_set_uint`; `%u` prints what `Nat.repr` does. -/
def setUInt (cfg : Config) (group : Option String) (key : String) (value : UInt32) : Config :=
  cfg.setString group key value.toNat.repr

/-- `tlm_config_set_boolean`. A `gboolean` is a `gint`, and is printed as one. -/
def setBoolean (cfg : Config) (group : Option String) (key : String) (value : Int32) : Config :=
  cfg.setInt group key value

/-- The value of a call of one of the four setters. -/
inductive Setting where
  | string (value : String)
  | int (value : Int32)
  | uint (value : UInt32)
  | boolean (value : Int32)

/-- A call of the setter the value belongs to. -/
def set (cfg : Config) (group : Option String) (key : String) : Setting → Config
  | .string value => cfg.setString group key value
  | .int value => cfg.setInt group key value
  | .uint value => cfg.setUInt group key value
  | .boolean value => cfg.setBoolean group key value

/-- A call of a setter, with all its arguments. -/
structure SetCall where
  /-- the group, `none` for `NULL` -/
  group : Option String
  /-- the key -/
  key : String
  /-- the value and with it the setter -/
  value : Setting

/-- A sequence of calls, the first one first. -/
def run (cfg : Config) (calls : List SetCall) : Config :=
  calls.foldl (fun cfg call => cfg.set call.group call.key call.value) cfg

/-! ## What the readers see -/

/-- The text a group holds for a key. -/
def entry (cfg : Config) (group key : String) : Option String :=
  (cfg.getGroup (some group)).bind fun table => table key

theorem getString_eq_entry {cfg : Config} {g k : String} (hk : k ≠ "") :
    cfg.getString (some g) k = cfg.entry g k := by
  simp [getString, entry, hk]

theorem hasKey_eq_entry {cfg : Config} {group : Option String} {k : String} :
    cfg.hasKey group k = (cfg.entry (group.getD general) k).isSome := by
  unfold hasKey entry
  cases cfg.getGroup (some (group.getD general)) <;> rfl

/-- The text a setter stores. -/
def Setting.text : Setting → String
  | .string value => value
  | .int value => value.toInt.repr
  | .uint value => value.toNat.repr
  | .boolean value => value.toInt.repr

theorem set_eq_setString (cfg : Config) (group : Option String) (key : String) (v : Setting) :
    cfg.set group key v = cfg.setString group key v.text := by
  cases v <;> rfl

/-- **One write**, at the pair written to. -/
theorem entry_setString_self {cfg : Config} {group : Option String} {key value : String}
    (hg : group.getD general ≠ "") (hk : key ≠ "") :
    (cfg.setString group key value).entry (group.getD general) key = some value := by
  simp [setString, entry, getGroup, hg, hk]

/-- **One write**, at every other pair. -/
theorem entry_setString_of_ne {cfg : Config} {group : Option String} {key value g k : String}
    (h : ¬(group.getD general = g ∧ key = k)) :
    (cfg.setString group key value).entry g k = cfg.entry g k := by
  unfold setString
  by_cases hkey : key = ""
  · simp [hkey]
  by_cases hg : g = ""
  · simp [entry, getGroup, hg]
  by_cases hgroup : group.getD general = g
  · -- the same group: it may have been made by this call, without the key
    have hkk : k ≠ key := fun hk => h ⟨hgroup, hk.symm⟩
    subst hgroup
    simp only [entry, getGroup, hkey, hg, String.isEmpty_iff, if_false, Function.update_self,
      Option.bind_some, Function.update_of_ne hkk]
    cases cfg.configTable (group.getD general) <;> rfl
  · have hne : g ≠ group.getD general := Ne.symm hgroup
    simp [entry, getGroup, hkey, hg, Function.update_of_ne hne]

theorem entry_set {cfg : Config} {group : Option String} {key g k : String} {v : Setting}
    (hg : g ≠ "") (hk : k ≠ "") :
    (cfg.set group key v).entry g k =
      if group.getD general = g ∧ key = k then some v.text else cfg.entry g k := by
  rw [set_eq_setString]
  split
  next h =>
    obtain ⟨rfl, rfl⟩ := h
    exact entry_setString_self hg hk
  next h => exact entry_setString_of_ne h

/-! ## Typed values come back -/

/-- The getter that matches the value returns exactly the value, whatever it is
given to return otherwise. -/
def ReadsBack (cfg : Config) (g k : String) : Setting → Prop
  | .string value => cfg.getString (some g) k = some value
  | .int value => ∀ retval : Int32, cfg.getInt (some g) k retval.toInt = value.toInt
  | .uint value => ∀ retval : UInt32, cfg.getUInt (some g) k retval.toNat = value.toNat
  | .boolean value => ∀ retval, cfg.getBoolean (some g) k retval = decide (value ≠ 0)

/-- The four readers of a value, and `tlm_config_has_key`, see the same in two configurations.
`tlm_config_get_string_default` is not among them: for a missing key it also asks whether the
group is there, and a write to another key may have made it. -/
structure SameReads (cfg cfg' : Config) (g k : String) : Prop where
  string : cfg.getString (some g) k = cfg'.getString (some g) k
  int : ∀ retval, cfg.getInt (some g) k retval = cfg'.getInt (some g) k retval
  uint : ∀ retval, cfg.getUInt (some g) k retval = cfg'.getUInt (some g) k retval
  boolean : ∀ retval, cfg.getBoolean (some g) k retval = cfg'.getBoolean (some g) k retval
  hasKey : cfg.hasKey (some g) k = cfg'.hasKey (some g) k

theorem SameReads.of_entry {cfg cfg' : Config} {g k : String}
    (h : cfg.entry g k = cfg'.entry g k) : cfg.SameReads cfg' g k := by
  have hstring : cfg.getString (some g) k = cfg'.getString (some g) k := by
    by_cases hk : k = ""
    · simp [getString, hk]
    · rw [getString_eq_entry hk, getString_eq_entry hk, h]
  constructor
  · exact hstring
  · intro retval
    simp only [getInt, hstring]
  · intro retval
    simp only [getUInt, hstring]
  · intro retval
    simp only [getBoolean, hstring]
  · simp only [hasKey_eq_entry, Option.getD_some, h]

theorem toLower_of_isDigit {c : Char} (h : c.isDigit) : c.toLower = c := by
  simp only [Char.isDigit, Bool.and_eq_true, decide_eq_true_eq] at h
  have hnot : ¬('A'.val ≤ c.val ∧ c.val ≤ 'Z'.val) := by
    rintro ⟨hA, -⟩
    exact absurd (UInt32.le_trans hA h.2) (by decide)
  exact dif_neg hnot

/-- No word that starts with a letter is the start of a printed number. -/
theorem hasPrefixNoCase_repr (v : ℤ) {p : Char} {ps : List Char} (hminus : p ≠ '-')
    (hp : p.isDigit = false) : hasPrefixNoCase (p :: ps) v.repr.toList = false := by
  obtain ⟨c, cs, hv, hc⟩ := head_intRepr v
  have hne : c.toLower ≠ p := by
    obtain rfl | hdigit := hc
    · exact hminus.symm
    · rw [toLower_of_isDigit hdigit]
      rintro rfl
      exact absurd hdigit (by simp [hp])
  simp [hv, hasPrefixNoCase, hne]

/-- A printed number is none of the words `tlm_config_get_boolean` looks for. -/
theorem getBoolean_repr {cfg : Config} {g k : String} {value : Int32} {retval : Bool}
    (h : cfg.getString (some g) k = some value.toInt.repr) :
    cfg.getBoolean (some g) k retval = decide (value.toInt ≠ 0) := by
  have hscan : scanInt value.toInt.repr = some value.toInt :=
    scanInt_repr value.le_toInt (by have := value.toInt_lt; omega)
  have hword : ∀ {p ps}, p ≠ '-' → p.isDigit = false →
      hasPrefixNoCase (p :: ps) value.toInt.repr.toList = false :=
    hasPrefixNoCase_repr value.toInt
  have hfalse : hasPrefixNoCase "false".toList value.toInt.repr.toList = false :=
    hword (by decide) (by decide)
  have hno : hasPrefixNoCase "no".toList value.toInt.repr.toList = false :=
    hword (by decide) (by decide)
  have htrue : hasPrefixNoCase "true".toList value.toInt.repr.toList = false :=
    hword (by decide) (by decide)
  have hyes : hasPrefixNoCase "yes".toList value.toInt.repr.toList = false :=
    hword (by decide) (by decide)
  simp only [getBoolean, h, hfalse, hno, htrue, hyes, Bool.or_self, Bool.false_eq_true, if_false,
    hscan]

theorem readsBack_of_entry {cfg : Config} {g k : String} {v : Setting} (hk : k ≠ "")
    (h : cfg.entry g k = some v.text) : cfg.ReadsBack g k v := by
  have hstring : cfg.getString (some g) k = some v.text := (getString_eq_entry hk).trans h
  cases v with
  | string value => exact hstring
  | int value =>
    intro retval
    simp only [getInt, hstring, Setting.text]
    rw [scanInt_repr value.le_toInt (by have := value.toInt_lt; omega)]
    rfl
  | uint value =>
    intro retval
    obtain ⟨c, cs, hv, hc⟩ := head_natRepr value.toNat
    -- no sign in front, so the test for one lets the text through
    have hhead : value.toNat.repr.toList.head? ≠ some '-' := by
      rw [hv]
      rintro ⟨⟩
      exact absurd hc (by decide)
    simp only [getUInt, hstring, Setting.text, hhead, if_false, scanUInt_repr value.toNat_lt]
    rfl
  | boolean value =>
    intro retval
    rw [getBoolean_repr hstring]
    -- any number but 0 is true, as in C
    rw [decide_eq_decide, not_iff_not, ← Int32.toInt_zero]
    exact Int32.toInt_inj

/-! ## Sequences of writes -/

/-- The value the last call gave a pair; a `NULL` group is `General`. -/
def lastWrite (calls : List SetCall) (g k : String) : Option Setting :=
  (calls.reverse.find? fun call => call.group.getD general = g ∧ call.key = k).map (·.value)

theorem lastWrite_concat (calls : List SetCall) (call : SetCall) (g k : String) :
    lastWrite (calls ++ [call]) g k =
      if call.group.getD general = g ∧ call.key = k then some call.value
      else lastWrite calls g k := by
  simp only [lastWrite, List.reverse_append, List.reverse_singleton, List.singleton_append,
    List.find?_cons]
  split <;> simp_all

theorem run_concat (cfg : Config) (calls : List SetCall) (call : SetCall) :
    cfg.run (calls ++ [call]) = (cfg.run calls).set call.group call.key call.value := by
  simp [run, List.foldl_append]

/-- **The last write wins.** -/
theorem entry_run {cfg : Config} {g k : String} (hg : g ≠ "") (hk : k ≠ "")
    (calls : List SetCall) :
    (cfg.run calls).entry g k = ((lastWrite calls g k).map Setting.text).or (cfg.entry g k) := by
  induction calls using List.reverseRecOn with
  | nil => simp [run, lastWrite]
  | append_singleton calls call ih =>
    rw [run_concat, entry_set hg hk, lastWrite_concat, ih]
    split <;> simp

/-- What a sequence of writes leaves at a pair: the last value written to it, or what
the configuration said before. -/
def ReadsLast (cfg cfg' : Config) (g k : String) : Option Setting → Prop
  | some v => cfg.ReadsBack g k v
  | none => cfg.SameReads cfg' g k

theorem readsLast_run {cfg : Config} {g k : String} (hg : g ≠ "") (hk : k ≠ "")
    (calls : List SetCall) :
    (cfg.run calls).ReadsLast cfg g k (lastWrite calls g k) := by
  have hentry : (cfg.run calls).entry g k = _ := entry_run hg hk calls
  cases hlast : lastWrite calls g k with
  | none =>
    rw [hlast] at hentry
    exact SameReads.of_entry hentry
  | some v =>
    rw [hlast] at hentry
    exact readsBack_of_entry hk hentry

theorem sameReads_set {cfg : Config} {g k g' k' : String} {v : Setting}
    (hne : (g', k') ≠ (g, k)) : (cfg.set (some g) k v).SameReads cfg g' k' := by
  apply SameReads.of_entry
  rw [set_eq_setString]
  apply entry_setString_of_ne
  rintro ⟨hgroup, hkey⟩
  exact hne (Prod.ext hgroup.symm hkey.symm)

/-- **The store reads back.** After a set the matching getter returns exactly the value,
every other pair reads as before, and a sequence of sets reads back as the last write
to each pair. -/
theorem store_reads_back (cfg : Config) {g k : String} (hg : g ≠ "") (hk : k ≠ "") :
    (∀ v, (cfg.set (some g) k v).ReadsBack g k v) ∧
      (∀ v g' k', (g', k') ≠ (g, k) → (cfg.set (some g) k v).SameReads cfg g' k') ∧
      ∀ calls, (cfg.run calls).ReadsLast cfg g k (lastWrite calls g k) := by
  refine ⟨fun v => ?_, fun v g' k' hne => sameReads_set hne, readsLast_run hg hk⟩
  apply readsBack_of_entry hk
  rw [entry_set hg hk]
  exact if_pos ⟨rfl, rfl⟩

/-- The round trip in one seat's group, with a value of every kind. -/
theorem store_reads_back_seat0 :
    (empty.set (some "seat0") "NWATCH" (.uint 4294967295)).ReadsBack "seat0" "NWATCH"
        (.uint 4294967295) ∧
      (empty.set (some "seat0") "NWATCH" (.int (-2147483648))).SameReads empty "seat0" "ACTIVE" ∧
      (empty.run [⟨some "seat0", "NWATCH", .boolean 2⟩, ⟨some "seat0", "NWATCH", .string "x"⟩]).ReadsBack
        "seat0" "NWATCH" (.string "x") := by
  obtain ⟨hset, hother, hrun⟩ :=
    store_reads_back empty (show "seat0" ≠ "" by decide) (show "NWATCH" ≠ "" by decide)
  exact ⟨hset _, hother _ _ _ (by decide),
    hrun [⟨some "seat0", "NWATCH", .boolean 2⟩, ⟨some "seat0", "NWATCH", .string "x"⟩]⟩

/-! ## The group that is not named -/

/-- Every reader takes a `NULL` group for `General`. -/
structure NullIsGeneral (cfg : Config) : Prop where
  string : ∀ key, cfg.getString none key = cfg.getString (some general) key
  stringDefault : ∀ key value,
    cfg.getStringDefault none key value = cfg.getStringDefault (some general) key value
  int : ∀ key retval, cfg.getInt none key retval = cfg.getInt (some general) key retval
  uint : ∀ key retval, cfg.getUInt none key retval = cfg.getUInt (some general) key retval
  boolean : ∀ key retval,
    cfg.getBoolean none key retval = cfg.getBoolean (some general) key retval
  hasKey : ∀ key, cfg.hasKey none key = cfg.hasKey (some general) key

/-- The readers agree exactly when there is nothing they could disagree about. -/
theorem nullIsGeneral_iff_getGroup {cfg : Config} :
    cfg.NullIsGeneral ↔ cfg.getGroup (some general) = none := by
  constructor
  · intro h
    have hdefault := h.stringDefault general ""
    have hkey : general.isEmpty = false := by decide
    rw [getStringDefault, getStringDefault, hkey] at hdefault
    cases hgroup : cfg.getGroup (some general) with
    | none => rfl
    | some table =>
      rw [hgroup] at hdefault
      exact absurd hdefault (by simp [getGroup])
  · intro h
    have hstring : ∀ key, cfg.getString none key = cfg.getString (some general) key := by
      intro key
      simp only [getString, h]
      rfl
    constructor
    · exact hstring
    · intro key value
      simp only [getStringDefault, h]
      rfl
    · intro key retval
      simp only [getInt, hstring]
    · intro key retval
      simp only [getUInt, hstring]
    · intro key retval
      simp only [getBoolean, hstring]
    · intro key
      rfl

/-- A write makes the group it goes to. -/
theorem getGroup_general_set {cfg : Config} {group : Option String} {key : String}
    {v : Setting} :
    (cfg.set group key v).getGroup (some general) = none ↔
      cfg.getGroup (some general) = none ∧ (key ≠ "" → group.getD general ≠ general) := by
  have hgeneral : general.isEmpty = false := by decide
  rw [set_eq_setString, setString]
  by_cases hkey : key = ""
  · simp [hkey]
  · by_cases hgroup : group.getD general = general
    · simp [getGroup, hkey, hgroup, hgeneral]
    · have hne : general ≠ group.getD general := Ne.symm hgroup
      simp [getGroup, hkey, hgroup, hgeneral, Function.update_of_ne hne]

theorem getGroup_general_run (cfg : Config) (calls : List SetCall) :
    (cfg.run calls).getGroup (some general) = none ↔
      cfg.getGroup (some general) = none ∧
        ∀ call ∈ calls, call.key ≠ "" → call.group.getD general ≠ general := by
  induction calls using List.reverseRecOn with
  | nil => simp [run]
  | append_singleton calls call ih =>
    rw [run_concat, getGroup_general_set, ih]
    simp only [List.mem_append, List.mem_singleton, or_imp, forall_and, forall_eq, and_assoc]

/-- **When `NULL` means `General`.** In the readers it does exactly while there is no such
group: none was loaded, and no call that is not refused wrote to it, by name or by
`NULL`. -/
theorem null_is_general_iff (cfg : Config) (calls : List SetCall) :
    (cfg.run calls).NullIsGeneral ↔
      cfg.getGroup (some general) = none ∧
        ∀ call ∈ calls, call.key ≠ "" → call.group.getD general ≠ general :=
  nullIsGeneral_iff_getGroup.trans (getGroup_general_run cfg calls)

/-- What was just written with a `NULL` group is not found with a `NULL` group. -/
theorem null_write_not_read :
    (empty.run [⟨none, "NSEATS", .uint 2⟩]).getUInt none "NSEATS" 0 = 0 ∧
      (empty.run [⟨none, "NSEATS", .uint 2⟩]).getUInt (some general) "NSEATS" 0 = 2 ∧
      (empty.run [⟨none, "NSEATS", .uint 2⟩]).hasKey none "NSEATS" = true := by
  decide

end Config

end Tlm
