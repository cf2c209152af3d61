import Mathlib.Data.List.TakeWhile
import Tlm.Block
import Tlm.ConfigStore
import Tlm.Daemon
import Tlm.Watch

/-!
# The watch list of a seat (`tlm-manager.c`)

`_add_seat` collects the items `WATCH0`, `WATCH1`, … of a seat in an array that
`tlm_utils_watch_for_files` walks until it finds a `NULL`. Three things about the
array go wrong, each in its own range:

* The size is `nwatch + 1` in 32 bits, which is `0` for the largest `NWATCH`.
* The index is a signed `int`. From `NWATCH = 2 ^ 31` on the loop comes to the step
  beyond the largest `int`, which has no defined result.
* An item that is not defined is stored as `NULL`, so it **ends** the list for the
  reader: what is behind a gap in the numbering is never watched.

`allWatched_iff` says that this is all: the list is complete exactly when `NWATCH` fits
an `int` and the numbering has no gap.
-/

namespace Tlm

/-- `INT_MAX`. -/
def intMax : ℕ := 2 ^ 31 - 1

/-- `WATCHx` of a seat. -/
def Config.watchItem (cfg : Config) (id : String) (x : ℕ) : Option String :=
  cfg.getString (some id) ("WATCH" ++ toString x)

/-- The filling loop of `_add_seat`, with `nwatch - x` turns left. `none` is the step
beyond the largest `int`. -/
def fillWatchItems (item : ℕ → Option String) :
    ℕ → ℕ → Block (Option String) → Option (Block (Option String))
  | 0, _, items => some items
  | turns + 1, x, items =>
    let items := items.write x (item x)
    if x = intMax then none else fillWatchItems item turns (x + 1) items

/-- What the collecting of the items comes to. -/
inductive WatchArray : Type where
  /-- the seat is not active, or has nothing to watch -/
  | skipped
  /-- the index overflows -/
  | undefined
  /-- the array that is handed over -/
  | handed (items : Block (Option String))
  deriving DecidableEq, Repr

/-- The part of `_add_seat` that collects the items. -/
def addSeatItems (cfg : Config) (id : String) : WatchArray :=
  if !cfg.seatActive id then .skipped
  else
    let nwatch := cfg.seatNwatch id
    if nwatch = 0 then .skipped
    else
      match fillWatchItems (cfg.watchItem id) nwatch 0 (Block.alloc ((nwatch + 1) % 2 ^ 32) none) with
      | none => .undefined
      | some items => .handed (items.write nwatch none)

/-- The array is written inside its bounds by a loop that ends, the list in it is
terminated, and it has every item that is defined, in order. -/
def AllWatched (cfg : Config) (id : String) : Prop :=
  match addSeatItems cfg id with
  | .skipped => True
  | .undefined => False
  | .handed items => items.InBounds ∧ none ∈ items.cells ∧
      ((List.range (cfg.seatNwatch id)).filterMap (cfg.watchItem id)).Sublist items.readList

/-! ## The loop -/

section

variable {item : ℕ → Option String}

theorem fillWatchItems_eq (turns : ℕ) {x : ℕ} (items : Block (Option String)) (hx : x ≤ intMax) :
    fillWatchItems item turns x items =
      if intMax < x + turns then none
      else some (items.fill x ((List.range' x turns).map item)) := by
  induction turns generalizing x items with
  | zero =>
    rw [if_neg (by omega)]
    rfl
  | succ turns ih =>
    rw [fillWatchItems]
    by_cases hmax : x = intMax
    · rw [if_pos hmax, if_pos (by omega)]
    · rw [if_neg hmax, ih _ (by omega), List.range'_succ, List.map_cons, Block.fill]
      congr 1
      simp only [eq_iff_iff]
      omega

/-- The array when the index stays in range: the items, and the terminator. -/
theorem fillWatchItems_cells (item : ℕ → Option String) {n : ℕ} (hn : n ≤ intMax) :
    ∃ items, fillWatchItems item n 0 (Block.alloc ((n + 1) % 2 ^ 32) none) = some items ∧
      (items.write n none).InBounds ∧
      (items.write n none).cells = (List.range n).map item ++ [none] := by
  have hsize : (n + 1) % 2 ^ 32 = n + 1 := by
    unfold intMax at hn
    omega
  refine ⟨(Block.alloc ((n + 1) % 2 ^ 32) none).fill 0 ((List.range' 0 n).map item), ?_, ?_, ?_⟩
  · rw [fillWatchItems_eq n _ (Nat.zero_le _), if_neg (by omega)]
  · rw [hsize, Block.inBounds_write, Block.inBounds_fill]
    refine ⟨⟨Block.inBounds_alloc _, ?_⟩, ?_⟩ <;> simp
  · have hfill : ((Block.alloc (n + 1) none).fill 0 ((List.range' 0 n).map item)).cells =
        (List.range n).map item ++ [none] := by
      rw [Block.cells_fill (by simp)]
      simp [Block.alloc, List.range_eq_range']
    rw [hsize, Block.write, hfill]
    simp

/-- Beyond the largest `int` the loop has no defined end. -/
theorem fillWatchItems_eq_none {n : ℕ} (hn : intMax < n) (items : Block (Option String)) :
    fillWatchItems item n 0 items = none := by
  rw [fillWatchItems_eq n _ (Nat.zero_le _), if_pos (by omega)]

end

/-! ## Gaps -/

/-- What is read up to the first `NULL` has everything exactly when nothing is behind a
`NULL`. -/
theorem sublist_takeWhile_iff {α : Type} (l : List (Option α)) :
    (l.filterMap fun a => a).Sublist ((l.takeWhile Option.isSome).filterMap fun a => a) ↔
      l.Pairwise fun a b => b.isSome → a.isSome := by
  induction l with
  | nil => simp
  | cons a l ih =>
    cases a with
    | some a => simp [ih]
    | none =>
      -- nothing is read: there must be nothing to read behind it
      simp only [List.takeWhile_cons, Option.isSome_none, Bool.false_eq_true, if_false,
        List.filterMap_nil, List.sublist_nil, List.pairwise_cons, imp_false]
      constructor
      · intro hnil
        have hnone : ∀ b ∈ l, ¬b.isSome = true := by
          intro b hb
          have := List.filterMap_eq_nil_iff.mp hnil b (List.mem_cons_of_mem _ hb)
          simpa using this
        exact ⟨hnone, List.pairwise_of_forall_mem_list fun a _ b hb h => absurd h (hnone b hb)⟩
      · rintro ⟨hnone, -⟩
        apply List.filterMap_eq_nil_iff.mpr
        intro b hb
        obtain rfl | hb := List.mem_cons.mp hb
        · rfl
        · simpa using hnone b hb

theorem takeWhile_concat_none {α : Type} (l : List (Option α)) :
    (l ++ [none]).takeWhile Option.isSome = l.takeWhile Option.isSome := by
  induction l with
  | nil => rfl
  | cons a l ih =>
    rw [List.cons_append, List.takeWhile_cons, List.takeWhile_cons, ih]

/-- The numbering of a seat's items has no gap: below an item that is defined every item
is. -/
def NoGap (cfg : Config) (id : String) : Prop :=
  ∀ i j, i < j → j < cfg.seatNwatch id → (cfg.watchItem id j).isSome → (cfg.watchItem id i).isSome

theorem readList_complete_iff {cfg : Config} {id : String} {items : Block (Option String)}
    (hcells : items.cells = (List.range (cfg.seatNwatch id)).map (cfg.watchItem id) ++ [none]) :
    ((List.range (cfg.seatNwatch id)).filterMap (cfg.watchItem id)).Sublist items.readList ↔
      NoGap cfg id := by
  have hitems : (List.range (cfg.seatNwatch id)).filterMap (cfg.watchItem id) =
      ((List.range (cfg.seatNwatch id)).map (cfg.watchItem id)).filterMap fun item => item := by
    rw [List.filterMap_map]
    rfl
  rw [Block.readList, hcells, takeWhile_concat_none, hitems, sublist_takeWhile_iff, List.pairwise_map,
    List.pairwise_iff_getElem]
  simp only [List.length_range, List.getElem_range, NoGap]
  constructor
  · intro h i j hij hj
    exact h i j (by omega) hj hij
  · intro h i j hi hj hij
    exact h i j hij hj

/-- **When all items are watched**: exactly when the seat is not active, or `NWATCH` fits an
`int` and the numbering has no gap. -/
theorem allWatched_iff (cfg : Config) (id : String) :
    AllWatched cfg id ↔
      (cfg.seatActive id = true → cfg.seatNwatch id ≤ intMax ∧ NoGap cfg id) := by
  unfold AllWatched addSeatItems
  cases hactive : cfg.seatActive id with
  | false => simp
  | true =>
    simp only [Bool.not_true, Bool.false_eq_true, if_false, true_imp_iff]
    by_cases hzero : cfg.seatNwatch id = 0
    · rw [if_pos hzero]
      refine ⟨fun _ => ⟨by omega, fun i j _ hj => absurd hj (by omega)⟩, fun _ => trivial⟩
    · rw [if_neg hzero]
      by_cases hn : cfg.seatNwatch id ≤ intMax
      · obtain ⟨items, hfill, hbounds, hcells⟩ := fillWatchItems_cells (cfg.watchItem id) hn
        rw [hfill]
        simp only [hbounds, hcells, readList_complete_iff hcells, hn, true_and, List.mem_append,
          List.mem_singleton, or_true]
      · rw [fillWatchItems_eq_none (by omega)]
        exact ⟨False.elim, fun h => hn h.1⟩

/-- `NWATCH` is 2 and only `WATCH1` is defined: the list handed over is empty. -/
theorem gap_hides_item :
    let cfg := ((Config.empty.setString (some "seat0") "NWATCH" "2").setString
      (some "seat0") "WATCH1" "/run/display")
    ∃ items, addSeatItems cfg "seat0" = .handed items ∧ items.readList = [] ∧
      cfg.seatNwatch "seat0" = 2 ∧ cfg.watchItem "seat0" 1 = some "/run/display" :=
  ⟨⟨[none, some "/run/display", none], [0, 1, 2]⟩, by decide⟩

/-! ## The list the daemon's model hands over -/

/-- A terminator at the end changes nothing for the watcher. -/
theorem scan_concat_none (fs : Fs) (items : List (Option String)) (nwatch : ℕ) (info : WatchInfo) :
    scan fs (items ++ [none]) nwatch info = scan fs items nwatch info := by
  induction items generalizing nwatch info with
  | nil => rfl
  | cons item rest ih =>
    cases item with
    | none => rfl
    | some item =>
      simp only [List.cons_append, scan, ih]
      cases rest with
      | nil => rfl
      | cons next rest => cases next <;> rfl

/-- `Daemon.addSeat` gives the watcher the list of items; in range, that is the array. -/
theorem watchForFiles_handed {cfg : Config} {id : String} {items : Block (Option String)}
    (hn : cfg.seatNwatch id ≤ intMax) (h : addSeatItems cfg id = .handed items) (fs : Fs) :
    watchForFiles fs items.cells = watchForFiles fs (Daemon.watchItems cfg id) := by
  obtain ⟨filled, hfill, -, hcells⟩ := fillWatchItems_cells (cfg.watchItem id) hn
  simp only [addSeatItems, hfill] at h
  have hitems : items = filled.write (cfg.seatNwatch id) none := by
    split at h
    · exact absurd h (by simp)
    · split at h
      · exact absurd h (by simp)
      · exact (WatchArray.handed.inj h).symm
  rw [hitems, hcells, watchForFiles, scan_concat_none]
  rfl

end Tlm
