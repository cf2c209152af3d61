import Mathlib.Data.List.Basic
import Tlm.SeatUserName

/-!
# Socket addresses (`tlm-seat.c`, `tlm-client.c`)

The socket of a seat's user is named after both, `seat-uid`, and daemon and client make
the name for themselves, with the same format. What is behind the last dash is the
number, and what is in front of it the seat; but the uid, which has no sign, is printed
with `%d`. From `2 ^ 31` on it comes out negative, with a dash of its own, and another
seat whose id ends in a dash may have that name for a smaller uid (`Twins`).

`addresses_identify` says that there is no other way for two addresses to be the same,
and when the client comes to the daemon's address.
-/

namespace Tlm

/-- The path of a socket. -/
def socketPath (seatId : String) (uid : ℕ) : String :=
  dbusSocketPath ++ "/" ++ seatId ++ "-" ++ toString (Int.bmod uid (2 ^ 32))

/-- `TLM_DBUS_ROOT_SOCKET_ADDRESS`. -/
def rootSocketAddress : String := "unix:path=" ++ dbusSocketPath ++ "/dbus-sock"

/-- The bytes of an address. -/
def addressBytes (address : String) : List UInt8 := address.toByteArray.data.toList

/-- `g_snprintf (address, 127, ...)` into a buffer: at most 126 bytes, and a terminator. -/
def snprintfAddress (address : String) : List UInt8 := (addressBytes address).take 126

/-- `_get_bus_connection`: the address the client connects to. Root has the root socket. -/
def clientAddress (seatId : String) (userId : ℕ) : List UInt8 :=
  if userId = 0 then snprintfAddress rootSocketAddress
  else snprintfAddress (observerAddress seatId userId)

/-- One seat id is the other one with a dash behind it, and its uid is what is left of
`2 ^ 32` over the other, larger uid. -/
def Twins (s₁ : String) (u₁ : UInt32) (s₂ : String) (u₂ : UInt32) : Prop :=
  s₂ = s₁ ++ "-" ∧ u₁.toNat + u₂.toNat = 2 ^ 32 ∧ u₂.toNat < 2 ^ 31

instance (s₁ : String) (u₁ : UInt32) (s₂ : String) (u₂ : UInt32) : Decidable (Twins s₁ u₁ s₂ u₂) :=
  inferInstanceAs (Decidable (_ ∧ _))

/-! ## Names -/

/-- A text is cut in one way at its last `x`. -/
theorem split_last_eq {α : Type} {x : α} {a b c d : List α} (hb : x ∉ b) (hd : x ∉ d)
    (h : a ++ x :: b = c ++ x :: d) : a = c ∧ b = d := by
  obtain ⟨e, hc, he⟩ | ⟨e, ha, he⟩ := List.append_eq_append_iff.mp h
  · cases e with
    | nil => exact ⟨by rw [hc, List.append_nil], List.tail_eq_of_cons_eq he⟩
    | cons y e =>
      refine absurd ?_ hb
      rw [List.tail_eq_of_cons_eq he]
      exact List.mem_append_right _ List.mem_cons_self
  · cases e with
    | nil => exact ⟨by rw [ha, List.append_nil], (List.tail_eq_of_cons_eq he).symm⟩
    | cons y e =>
      refine absurd ?_ hd
      rw [List.tail_eq_of_cons_eq he]
      exact List.mem_append_right _ List.mem_cons_self

theorem dash_not_mem_repr (n : ℕ) : '-' ∉ n.repr.toList := by
  rw [Nat.toList_repr]
  intro h
  exact absurd (isDigit_of_mem_decimal n '-' h) (by decide)

theorem repr_injective {m n : ℕ} (h : m.repr.toList = n.repr.toList) : m = n := by
  have hm := scanNumeral_natRepr m
  rw [h, scanNumeral_natRepr n] at hm
  exact (congrArg Prod.snd (Option.some.inj hm)).symm

/-- How `%d` prints a uid: as it is, or as a negative number. -/
theorem toString_bmod (u : UInt32) :
    (u.toNat < 2 ^ 31 ∧ (toString (Int.bmod u.toNat (2 ^ 32))).toList = u.toNat.repr.toList) ∨
      (2 ^ 31 ≤ u.toNat ∧
        (toString (Int.bmod u.toNat (2 ^ 32))).toList = '-' :: (2 ^ 32 - u.toNat).repr.toList) := by
  have hu := u.toNat_lt
  by_cases hlow : u.toNat < 2 ^ 31
  · refine .inl ⟨hlow, ?_⟩
    rw [Int.bmod_eq_of_le (by omega) (by omega)]
    rfl
  · refine .inr ⟨by omega, ?_⟩
    have hneg : Int.bmod u.toNat (2 ^ 32) = (u.toNat : ℤ) - 2 ^ 32 := by
      have hsub : Int.bmod ((u.toNat : ℤ) - (2 ^ 32 : ℕ)) (2 ^ 32) = Int.bmod u.toNat (2 ^ 32) :=
        Int.sub_bmod_right _ _
      rw [← hsub, Int.bmod_eq_of_le (by omega) (by omega)]
      rfl
    have hnat : (-((u.toNat : ℤ) - 2 ^ 32)).toNat = 2 ^ 32 - u.toNat := by omega
    rw [hneg]
    show ((u.toNat : ℤ) - 2 ^ 32).repr.toList = _
    rw [Int.repr_eq_if, if_neg (by omega), String.toList_append, hnat]
    rfl

/-- What an address says behind the path of all sockets. -/
theorem name_eq_of_address_eq {s₁ s₂ : String} {u₁ u₂ : UInt32}
    (h : observerAddress s₁ u₁.toNat = observerAddress s₂ u₂.toNat) :
    s₁.toList ++ '-' :: (toString (Int.bmod u₁.toNat (2 ^ 32))).toList =
      s₂.toList ++ '-' :: (toString (Int.bmod u₂.toNat (2 ^ 32))).toList := by
  have hlist := congrArg String.toList h
  simp only [observerAddress, String.toList_append, List.append_assoc, List.append_cancel_left_eq] at hlist
  exact hlist

/-- **The same address for two**: they are the same, or twins. -/
theorem address_eq {s₁ s₂ : String} {u₁ u₂ : UInt32}
    (h : observerAddress s₁ u₁.toNat = observerAddress s₂ u₂.toNat) :
    (s₁ = s₂ ∧ u₁ = u₂) ∨ Twins s₁ u₁ s₂ u₂ ∨ Twins s₂ u₂ s₁ u₁ := by
  have h₁ := u₁.toNat_lt
  have h₂ := u₂.toNat_lt
  have hname := name_eq_of_address_eq h
  obtain ⟨hlow₁, ht₁⟩ | ⟨hhigh₁, ht₁⟩ := toString_bmod u₁
  · obtain ⟨hlow₂, ht₂⟩ | ⟨hhigh₂, ht₂⟩ := toString_bmod u₂
    · rw [ht₁, ht₂] at hname
      obtain ⟨hs, hu⟩ := split_last_eq (dash_not_mem_repr _) (dash_not_mem_repr _) hname
      exact .inl ⟨String.toList_inj.mp hs, UInt32.toNat_inj.mp (repr_injective hu)⟩
    · -- the second prints a dash of its own, which must belong to the first's seat
      rw [ht₁, ht₂, List.append_cons _ '-' ('-' :: _)] at hname
      obtain ⟨hs, hu⟩ := split_last_eq (dash_not_mem_repr _) (dash_not_mem_repr _) hname
      refine .inr (.inr ⟨String.toList_inj.mp ?_, ?_, hlow₁⟩)
      · rw [hs, String.toList_append]
        rfl
      · have := repr_injective hu
        omega
  · obtain ⟨hlow₂, ht₂⟩ | ⟨hhigh₂, ht₂⟩ := toString_bmod u₂
    · rw [ht₁, ht₂, List.append_cons _ '-' ('-' :: _)] at hname
      obtain ⟨hs, hu⟩ := split_last_eq (dash_not_mem_repr _) (dash_not_mem_repr _) hname
      refine .inr (.inl ⟨String.toList_inj.mp ?_, ?_, hlow₂⟩)
      · rw [← hs, String.toList_append]
        rfl
      · have := repr_injective hu
        omega
    · rw [ht₁, ht₂, List.append_cons s₁.toList, List.append_cons s₂.toList] at hname
      obtain ⟨hs, hu⟩ := split_last_eq (dash_not_mem_repr _) (dash_not_mem_repr _) hname
      refine .inl ⟨String.toList_inj.mp (List.append_cancel_right hs), UInt32.toNat_inj.mp ?_⟩
      have := repr_injective hu
      omega

/-- The root socket is nobody's: its name ends in a letter. -/
theorem address_ne_root (s : String) (u : UInt32) :
    observerAddress s u.toNat ≠ rootSocketAddress := by
  have hsock : ∀ {a : List Char} {n : ℕ},
      a ++ '-' :: n.repr.toList ≠ ['d', 'b', 'u', 's'] ++ '-' :: ['s', 'o', 'c', 'k'] := by
    intro a n h
    obtain ⟨-, hn⟩ := split_last_eq (dash_not_mem_repr n) (by decide) h
    rw [Nat.toList_repr] at hn
    have hs : 's' ∈ Nat.toDigits 10 n := by
      rw [hn]
      exact List.mem_cons_self
    exact absurd (isDigit_of_mem_decimal n 's' hs) (by decide)
  intro h
  have hlist := congrArg String.toList h
  simp only [observerAddress, rootSocketAddress, String.toList_append, List.append_assoc,
    List.append_cancel_left_eq] at hlist
  have hname : s.toList ++ '-' :: (toString (Int.bmod u.toNat (2 ^ 32))).toList =
      ['d', 'b', 'u', 's'] ++ '-' :: ['s', 'o', 'c', 'k'] := List.tail_eq_of_cons_eq hlist
  obtain ⟨-, ht⟩ | ⟨-, ht⟩ := toString_bmod u
  · rw [ht] at hname
    exact hsock hname
  · rw [ht, List.append_cons s.toList] at hname
    exact hsock hname

/-- A path that fits is not cut off. -/
theorem snprintfAddress_eq {s : String} {uid : ℕ} (h : (socketPath s uid).utf8ByteSize ≤ 107) :
    snprintfAddress (observerAddress s uid) = addressBytes (observerAddress s uid) := by
  have haddress : observerAddress s uid = "unix:path=" ++ socketPath s uid := by
    simp only [observerAddress, socketPath, String.append_assoc]
  apply List.take_of_length_le
  have hsize : (addressBytes (observerAddress s uid)).length = (observerAddress s uid).utf8ByteSize :=
    rfl
  rw [hsize, haddress, String.utf8ByteSize_append]
  have hprefix : "unix:path=".utf8ByteSize = 10 := by decide
  omega

/-- **What an address identifies.** Two addresses are the same only for the same seat and
user, twins apart, and the root socket is neither's; a user who is not root comes to the
address the daemon serves, if its path fits into a socket name, and root comes to the
root socket. -/
theorem addresses_identify (s₁ s₂ : String) (u₁ u₂ : UInt32) :
    (observerAddress s₁ u₁.toNat = observerAddress s₂ u₂.toNat →
      (s₁ = s₂ ∧ u₁ = u₂) ∨ Twins s₁ u₁ s₂ u₂ ∨ Twins s₂ u₂ s₁ u₁) ∧
    observerAddress s₁ u₁.toNat ≠ rootSocketAddress ∧
    (u₁ ≠ 0 → (socketPath s₁ u₁.toNat).utf8ByteSize ≤ 107 →
      clientAddress s₁ u₁.toNat = addressBytes (observerAddress s₁ u₁.toNat)) ∧
    clientAddress s₁ 0 = addressBytes rootSocketAddress := by
  have hroot : clientAddress s₁ 0 = addressBytes rootSocketAddress := by
    rw [clientAddress, if_pos rfl]
    decide
  refine ⟨address_eq, address_ne_root s₁ u₁, fun hne hfit => ?_, hroot⟩
  rw [clientAddress, if_neg, snprintfAddress_eq hfit]
  exact fun h => hne (UInt32.toNat_inj.mp h)

/-- Seat `seat0` has with user `4294967291` the address that seat `seat0-` has with user
`5`; and root on `seat0` does not come to the socket of `seat0`. -/
theorem addresses_collide :
    observerAddress "seat0" 4294967291 = observerAddress "seat0-" 5 ∧
      clientAddress "seat0" 0 ≠ addressBytes (observerAddress "seat0" 0) := by
  refine ⟨by decide, ?_⟩
  rw [clientAddress, if_pos rfl]
  decide

end Tlm
