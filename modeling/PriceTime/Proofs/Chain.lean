import Mathlib.Data.List.Induction
import PriceTime.Level
import PriceTime.Proofs.Arena

/-!
# Chains of orders

The queue of a level is threaded through its orders. A chain says what the links of a stretch of a
queue are: each order names its neighbours, and the ends name what stands before and after the
stretch.

* `Chain.append_iff`: a stretch is a chain when its two parts are, each the neighbour of the other.
* `Chain.setBefore`, `Chain.setAfter`: an end of a chain gets another neighbour.
* `Chain.walk_eq`, `Chain.walkBack_eq`: following the links either way gives the stretch.
-/

namespace PriceTime

/-- The links of an order to its older and its newer neighbour. -/
def Pool.links (pool : Pool) (slot : Slot) : Option (Option Slot × Option Slot) :=
  (pool.get? slot).map fun o => (o.prev, o.next)

theorem Pool.links_eq_some {pool : Pool} {slot : Slot} {ends : Option Slot × Option Slot} :
    pool.links slot = some ends ↔
      ∃ o, pool.get? slot = some o ∧ o.prev = ends.1 ∧ o.next = ends.2 := by
  obtain ⟨before, after⟩ := ends
  simp [Pool.links]

/-- The orders in `slots` are linked to each other in this order, with `before` and `after` as the
neighbours of the two ends. -/
def Chain (pool : Pool) : (before : Option Slot) → (slots : List Slot) → (after : Option Slot) → Prop
  | _, [], _ => True
  | before, slot :: rest, after =>
    pool.links slot = some (before, rest.head?.or after) ∧ Chain pool (some slot) rest after

namespace Chain

variable {pool pool' : Pool} {before after : Option Slot} {slot : Slot} {slots rest : List Slot}

theorem append_iff {before : Option Slot} (slots rest : List Slot) :
    Chain pool before (slots ++ rest) after ↔
      Chain pool before slots (rest.head?.or after) ∧
        Chain pool (slots.getLast?.or before) rest after := by
  induction slots generalizing before with
  | nil => simp [Chain]
  | cons slot slots ih =>
    have hhead : (slots ++ rest).head?.or after = slots.head?.or (rest.head?.or after) := by
      cases slots <;> simp
    have hlast : (slot :: slots).getLast?.or before = slots.getLast?.or (some slot) := by
      cases slots with
      | nil => rfl
      | cons s tail => simp [List.getLast?_cons]
    rw [List.cons_append, Chain, Chain, ih, hhead, hlast, and_assoc]

theorem singleton_iff : Chain pool before [slot] after ↔ pool.links slot = some (before, after) := by
  simp [Chain]

theorem congr (h : Chain pool before slots after)
    (hlinks : ∀ s ∈ slots, pool'.links s = pool.links s) : Chain pool' before slots after := by
  induction slots generalizing before with
  | nil => trivial
  | cons slot slots ih =>
    refine ⟨?_, ih h.2 fun s hs => hlinks s (List.mem_cons_of_mem _ hs)⟩
    rw [hlinks slot (List.mem_cons_self ..)]
    exact h.1

theorem links_isSome (h : Chain pool before slots after) (hs : slot ∈ slots) :
    ∃ ends, pool.links slot = some ends := by
  induction slots generalizing before with
  | nil => cases hs
  | cons first rest ih =>
    rcases List.mem_cons.mp hs with rfl | hs
    · exact ⟨_, h.1⟩
    · exact ih h.2 hs

theorem exists_order (h : Chain pool before slots after) (hs : slot ∈ slots) :
    ∃ o, pool.get? slot = some o := by
  obtain ⟨ends, hends⟩ := h.links_isSome hs
  obtain ⟨o, ho, -⟩ := Pool.links_eq_some.mp hends
  exact ⟨o, ho⟩

/-- The links of an order in the middle of a chain. -/
theorem links_middle {older newer : List Slot}
    (h : Chain pool before (older ++ slot :: newer) after) :
    pool.links slot = some (older.getLast?.or before, newer.head?.or after) :=
  ((append_iff older (slot :: newer)).mp h).2.1

/-- The first order of a chain gets another neighbour before it. -/
theorem setBefore {before' : Option Slot} (h : Chain pool before slots after) (hnodup : slots.Nodup)
    (hlinks : ∀ s ∈ slots, pool'.links s =
      (pool.links s).map fun ends => (if slots.head? = some s then before' else ends.1, ends.2)) :
    Chain pool' before' slots after := by
  cases slots with
  | nil => trivial
  | cons slot rest =>
    refine ⟨?_, h.2.congr ?_⟩
    · rw [hlinks slot (List.mem_cons_self ..), h.1]
      simp
    · intro s hs
      have hne : slot ≠ s := fun heq => (List.nodup_cons.mp hnodup).1 (heq ▸ hs)
      rw [hlinks s (List.mem_cons_of_mem _ hs)]
      simp [hne]

/-- The last order of a chain gets another neighbour after it. -/
theorem setAfter {after' : Option Slot} (h : Chain pool before slots after) (hnodup : slots.Nodup)
    (hlinks : ∀ s ∈ slots, pool'.links s =
      (pool.links s).map fun ends => (ends.1, if slots.getLast? = some s then after' else ends.2)) :
    Chain pool' before slots after' := by
  rcases List.eq_nil_or_concat slots with rfl | ⟨older, last, rfl⟩
  · trivial
  · rw [List.concat_eq_append] at *
    obtain ⟨holder, hlast⟩ := (append_iff older [last]).mp h
    refine (append_iff older [last]).mpr ⟨?_, ?_⟩
    · refine holder.congr ?_
      intro s hs
      have hne : last ≠ s := by
        rintro rfl
        exact (List.nodup_append.mp hnodup).2.2 last hs last (by simp) rfl
      rw [hlinks s (List.mem_append_left _ hs)]
      simp [hne]
    · rw [singleton_iff] at hlast ⊢
      rw [hlinks last (by simp), hlast]
      simp

end Chain

/-! ## Walks -/

/-- The orders in some slots, with their slots. -/
def Pool.entries (pool : Pool) (slots : List Slot) : List (Slot × Order) :=
  slots.filterMap fun slot => (pool.get? slot).map (slot, ·)

/-- Follow the links to older orders for at most `steps` orders. A free slot ends the walk. -/
def Level.walkBack (pool : Pool) : (steps : Nat) → Option Slot → List (Slot × Order)
  | 0, _ => []
  | _, none => []
  | steps + 1, some slot =>
    match pool.get? slot with
    | some order => (slot, order) :: walkBack pool steps order.prev
    | none => []

theorem Pool.entries_append (pool : Pool) (slots rest : List Slot) :
    pool.entries (slots ++ rest) = pool.entries slots ++ pool.entries rest :=
  List.filterMap_append

theorem Pool.entries_singleton {pool : Pool} {slot : Slot} {o : Order}
    (h : pool.get? slot = some o) : pool.entries [slot] = [(slot, o)] := by
  simp [Pool.entries, h]

theorem Pool.mem_entries {pool : Pool} {slots : List Slot} {slot : Slot} {o : Order} :
    (slot, o) ∈ pool.entries slots ↔ slot ∈ slots ∧ pool.get? slot = some o := by
  simp [Pool.entries, and_comm]

namespace Chain

variable {pool : Pool} {before after : Option Slot} {slots : List Slot}

theorem map_fst_entries (h : Chain pool before slots after) :
    (pool.entries slots).map Prod.fst = slots := by
  induction slots generalizing before with
  | nil => rfl
  | cons slot slots ih =>
    obtain ⟨o, ho⟩ := h.exists_order (List.mem_cons_self ..)
    have htail := ih h.2
    simp only [Pool.entries, List.filterMap_cons, ho, Option.map_some, List.map_cons] at htail ⊢
    rw [htail]

/-- The first order of a chain names what stands before the chain. -/
theorem prev_of_head? (h : Chain pool before slots after) {entry : Slot × Order}
    (hentry : entry ∈ (pool.entries slots).head?) : entry.2.prev = before := by
  cases slots with
  | nil => cases hentry
  | cons slot rest =>
    obtain ⟨o, ho, hprev, -⟩ := Pool.links_eq_some.mp h.1
    have hentries : pool.entries (slot :: rest) = (slot, o) :: pool.entries rest := by
      simp [Pool.entries, ho]
    rw [hentries] at hentry
    cases hentry
    exact hprev

/-- The last order of a chain names what stands after the chain. -/
theorem next_of_getLast? (h : Chain pool before slots after) {entry : Slot × Order}
    (hentry : entry ∈ (pool.entries slots).getLast?) : entry.2.next = after := by
  rcases List.eq_nil_or_concat slots with rfl | ⟨older, last, rfl⟩
  · cases hentry
  · rw [List.concat_eq_append] at *
    obtain ⟨-, hlast⟩ := (append_iff older [last]).mp h
    obtain ⟨o, ho, -, hnext⟩ := Pool.links_eq_some.mp (singleton_iff.mp hlast)
    rw [Pool.entries_append, Pool.entries_singleton ho, List.getLast?_append] at hentry
    cases hentry
    exact hnext

/-- Following the links to newer orders gives the whole chain, once there are enough steps. -/
theorem walk_eq (h : Chain pool before slots none) {steps : Nat} (hsteps : slots.length ≤ steps) :
    Level.walk pool steps slots.head? = pool.entries slots := by
  induction slots generalizing before steps with
  | nil => cases steps <;> rfl
  | cons slot slots ih =>
    obtain ⟨o, ho, -, hnext⟩ := Pool.links_eq_some.mp h.1
    rw [Option.or_none] at hnext
    cases steps with
    | zero => cases hsteps
    | succ steps =>
      have hrest := ih h.2 (Nat.le_of_succ_le_succ hsteps)
      simp only [List.head?_cons, Level.walk, ho, hnext, hrest]
      simp [Pool.entries, ho]

/-- Following the links to older orders gives the whole chain in reverse. -/
theorem walkBack_eq (h : Chain pool none slots after) {steps : Nat}
    (hsteps : slots.length ≤ steps) :
    Level.walkBack pool steps slots.getLast? = (pool.entries slots).reverse := by
  -- This walk starts at the newest order, so that is the one to take off.
  induction slots using List.reverseRecOn generalizing after steps with
  | nil => cases steps <;> rfl
  | append_singleton older last ih =>
    obtain ⟨holder, hlast⟩ := (append_iff older [last]).mp h
    obtain ⟨o, ho, hprev, -⟩ := Pool.links_eq_some.mp (singleton_iff.mp hlast)
    rw [Option.or_none] at hprev
    rw [List.length_append, List.length_singleton] at hsteps
    cases steps with
    | zero => omega
    | succ steps =>
      have hrest := ih holder (Nat.le_of_succ_le_succ hsteps)
      rw [Pool.entries_append, Pool.entries_singleton ho, List.reverse_append, ← hrest]
      simp [Level.walkBack, ho, hprev]

/-- A chain without repetition has at most as many orders as the pool. -/
theorem length_le_size (h : Chain pool before slots after) (htidy : pool.Tidy)
    (hnodup : slots.Nodup) : slots.length ≤ pool.size := by
  rw [htidy.size_eq_total]
  refine le_trans (le_of_eq ?_) (Arena.sum_le_total (fun _ => 1) hnodup)
  have hone : (slots.map fun s => Arena.share (fun _ => 1) (pool.get? s)) =
      slots.map fun _ => 1 := by
    refine List.map_congr_left fun slot hslot => ?_
    obtain ⟨o, ho⟩ := h.exists_order hslot
    rw [ho]
    rfl
  rw [hone]
  simp

end Chain

end PriceTime
