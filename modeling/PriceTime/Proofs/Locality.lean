import PriceTime.Proofs.PlainBook

/-!
# What a message reads and writes

A message reads and writes the queues of a few levels and the places of a few orders. An operation
is local to some levels and some ids when its answer and what it leaves there depend on nothing else,
and when it leaves everything else alone. Local operations with nothing in common commute.

* `PlainBook.Local`: an operation is local to some levels and ids.
* `PlainBook.Local.comm`: local operations with nothing in common commute.
* `PlainBook.process_local`: a message is local to the levels it touches and the ids it names.
-/

namespace PriceTime

/-- The levels a message touches, given the place where the order with its id rests: the level it
names, which is on the other side if it is a trade, and but for a trade the place of the order. -/
def Message.touched (m : Message) (place : Option (Side × Int32)) : List (Side × Int32) :=
  match m.action with
  | .add | .modify => (m.side, m.price) :: place.toList
  | .cancel => place.toList
  | .trade => [(m.side.opposite, m.price)]

namespace PlainBook

/-- Two books have the same queues at some levels, and the same places for some ids. -/
structure SameAt (levels : List (Side × Int32)) (ids : List UInt64) (b b' : PlainBook) : Prop where
  queue : ∀ side price, (side, price) ∈ levels → b'.queue side price = b.queue side price
  place : ∀ id ∈ ids, b'.place id = b.place id

/-- Two books have the same queues but for some levels, and the same places but for some ids. -/
structure SameBut (levels : List (Side × Int32)) (ids : List UInt64) (b b' : PlainBook) : Prop where
  queue : ∀ side price, (side, price) ∉ levels → b'.queue side price = b.queue side price
  place : ∀ id, id ∉ ids → b'.place id = b.place id

/-- What an operation made of two books: the same answer, the same at some levels and ids, and
nothing new elsewhere in the second book. -/
structure Alike {α : Type} (levels : List (Side × Int32)) (ids : List UInt64) (b' : PlainBook)
    (r r' : α × PlainBook) : Prop where
  answer : r'.1 = r.1
  inside : SameAt levels ids r.2 r'.2
  outside : SameBut levels ids b' r'.2

/-- An operation on `b`, and on every book that is the same at some levels and ids, sees and changes
nothing else. -/
def Local {α : Type} (levels : List (Side × Int32)) (ids : List UInt64) (b : PlainBook)
    (f : PlainBook → α × PlainBook) : Prop :=
  ∀ b', SameAt levels ids b b' → Alike levels ids b' (f b) (f b')

variable {levels levels' : List (Side × Int32)} {ids ids' : List UInt64} {b b' b'' : PlainBook}
  {id : UInt64} {price : Int32} {size : UInt32} {side : Side} {time : UInt64} {entry : Entry}
  {entries : List Entry}

/-! ## Operations with nothing in common -/

theorem SameAt.refl (levels : List (Side × Int32)) (ids : List UInt64) (b : PlainBook) :
    SameAt levels ids b b := ⟨fun _ _ _ => rfl, fun _ _ => rfl⟩

theorem SameBut.refl (levels : List (Side × Int32)) (ids : List UInt64) (b : PlainBook) :
    SameBut levels ids b b := ⟨fun _ _ _ => rfl, fun _ _ => rfl⟩

theorem SameBut.trans (h : SameBut levels ids b b') (h' : SameBut levels ids b' b'') :
    SameBut levels ids b b'' where
  queue s p hp := (h'.queue s p hp).trans (h.queue s p hp)
  place i hi := (h'.place i hi).trans (h.place i hi)

/-- What changes elsewhere does not change here. -/
theorem SameBut.sameAt (h : SameBut levels ids b b') (hlevels : levels.Disjoint levels')
    (hids : ids.Disjoint ids') : SameAt levels' ids' b b' where
  queue s p hp := h.queue s p fun hmem => hlevels hmem hp
  place i hi := h.place i fun hmem => hids hmem hi

namespace Local

variable {α β : Type} {f : PlainBook → α × PlainBook} {g : PlainBook → β × PlainBook}

theorem sameBut (hf : Local levels ids b f) : SameBut levels ids b (f b).2 :=
  (hf b (.refl levels ids b)).outside

/-- The answer does not depend on what a local operation did elsewhere before. -/
theorem answer_after (hf : Local levels ids b f) (hg : Local levels' ids' b g)
    (hlevels : levels.Disjoint levels') (hids : ids.Disjoint ids') : (g (f b).2).1 = (g b).1 :=
  (hg _ (hf.sameBut.sameAt hlevels hids)).answer

/-- Local operations with nothing in common commute. -/
theorem comm (hf : Local levels ids b f) (hg : Local levels' ids' b g)
    (hlevels : levels.Disjoint levels') (hids : ids.Disjoint ids') :
    (g (f b).2).2 = (f (g b).2).2 := by
  obtain ⟨-, hgin, hgout⟩ := hg _ (hf.sameBut.sameAt hlevels hids)
  obtain ⟨-, hfin, hfout⟩ := hf _ (hg.sameBut.sameAt hlevels.symm hids.symm)
  apply PlainBook.ext
  · funext s p
    -- Each level belongs to one of the operations, or to none of them.
    by_cases hp : (s, p) ∈ levels
    · rw [hgout.queue s p (hlevels hp), hfin.queue s p hp]
    · rw [hfout.queue s p hp]
      by_cases hp' : (s, p) ∈ levels'
      · exact hgin.queue s p hp'
      · rw [hgout.queue s p hp', hf.sameBut.queue s p hp, hg.sameBut.queue s p hp']
  · funext i
    by_cases hi : i ∈ ids
    · rw [hgout.place i (hids hi), hfin.place i hi]
    · rw [hfout.place i hi]
      by_cases hi' : i ∈ ids'
      · exact hgin.place i hi'
      · rw [hgout.place i hi', hf.sameBut.place i hi, hg.sameBut.place i hi']

end Local

/-! ## Changes of one queue and one place -/

theorem SameAt.setQueue (h : SameAt levels ids b b') (side : Side) (price : Int32)
    (entries : List Entry) :
    SameAt levels ids (b.setQueue side price entries) (b'.setQueue side price entries) where
  queue s p hp := by
    unfold PlainBook.setQueue
    dsimp only
    rw [h.queue s p hp]
  place := h.place

theorem SameAt.setPlace (h : SameAt levels ids b b') (id : UInt64)
    (place : Option (Side × Int32)) :
    SameAt levels ids (b.setPlace id place) (b'.setPlace id place) where
  queue := h.queue
  place i hi := by
    unfold PlainBook.setPlace
    dsimp only
    rw [h.place i hi]

theorem SameBut.setQueue (b : PlainBook) (ids : List UInt64) (hlevel : (side, price) ∈ levels) :
    SameBut levels ids b (b.setQueue side price entries) where
  queue s p hp := by
    apply if_neg
    rintro ⟨rfl, rfl⟩
    exact hp hlevel
  place _ _ := rfl

theorem SameBut.setPlace (b : PlainBook) (levels : List (Side × Int32)) (hid : id ∈ ids)
    (place : Option (Side × Int32)) : SameBut levels ids b (b.setPlace id place) where
  queue _ _ _ := rfl
  place i hi := by
    apply if_neg
    rintro rfl
    exact hi hid

theorem SameAt.enqueue (h : SameAt levels ids b b') (hlevel : (side, price) ∈ levels) :
    SameAt levels ids (b.enqueue side price entry) (b'.enqueue side price entry) := by
  unfold PlainBook.enqueue
  rw [h.queue side price hlevel]
  exact (h.setQueue ..).setPlace ..

theorem SameBut.enqueue (b : PlainBook) (hlevel : (side, price) ∈ levels) (hid : entry.id ∈ ids) :
    SameBut levels ids b (b.enqueue side price entry) :=
  (SameBut.setQueue b ids hlevel).trans (.setPlace _ levels hid _)

theorem SameAt.dequeue (h : SameAt levels ids b b') (hlevel : (side, price) ∈ levels) :
    SameAt levels ids (b.dequeue side price id) (b'.dequeue side price id) := by
  unfold PlainBook.dequeue
  rw [h.queue side price hlevel]
  exact (h.setQueue ..).setPlace ..

theorem SameBut.dequeue (b : PlainBook) (hlevel : (side, price) ∈ levels) (hid : id ∈ ids) :
    SameBut levels ids b (b.dequeue side price id) :=
  (SameBut.setQueue b ids hlevel).trans (.setPlace _ levels hid _)

/-! ## Operations -/

/-- An order is found in the level where it rests. -/
theorem SameAt.find?_eq (h : SameAt levels ids b b') (hid : id ∈ ids)
    (hrest : ∀ place, b.place id = some place → place ∈ levels) : b'.find? id = b.find? id := by
  unfold find?
  rw [h.place id hid]
  cases hplace : b.place id with
  | none => rfl
  | some place =>
    rw [Option.bind_some, Option.bind_some]
    dsimp only
    rw [h.queue place.1 place.2 (hrest place hplace)]

theorem place_of_find? (hfound : b.find? id = some (side, price, entry)) :
    b.place id = some (side, price) := by
  obtain ⟨place, hplace, hmap⟩ := Option.bind_eq_some_iff.mp hfound
  obtain ⟨found, -, heq⟩ := Option.map_eq_some_iff.mp hmap
  cases heq
  exact hplace

namespace Alike

variable {α β : Type} {r r' : α × PlainBook}

/-- Nothing happens to either book. -/
theorem kept (h : SameAt levels ids b b') (answer : α) :
    Alike levels ids b' (answer, b) (answer, b') :=
  ⟨rfl, h, .refl levels ids b'⟩

theorem map (h : Alike levels ids b' r r') (f : α → β) :
    Alike levels ids b' (f r.1, r.2) (f r'.1, r'.2) :=
  ⟨congrArg f h.answer, h.inside, h.outside⟩

end Alike

theorem Local.map {α β : Type} {f : PlainBook → α × PlainBook} (hf : Local levels ids b f)
    (g : α → β) : Local levels ids b fun b => (g (f b).1, (f b).2) :=
  fun b' h => (hf b' h).map g

theorem add_local (b : PlainBook) (size : UInt32) (time : UInt64)
    (hlevel : (side, price) ∈ levels) (hid : id ∈ ids) :
    Local levels ids b fun b => b.add id price size side time := by
  intro b' h
  dsimp only [add]
  rw [h.place id hid]
  split
  · exact .kept h _
  · exact ⟨rfl, h.enqueue hlevel, .enqueue b' hlevel hid⟩

theorem remove_local (hid : id ∈ ids) (hrest : ∀ place, b.place id = some place → place ∈ levels) :
    Local levels ids b fun b => b.remove id := by
  intro b' h
  dsimp only [remove]
  rw [h.find?_eq hid hrest]
  cases hfound : b.find? id with
  | none => exact .kept h _
  | some found =>
    obtain ⟨side, price, entry⟩ := found
    have hlevel := hrest _ (place_of_find? hfound)
    exact ⟨rfl, h.dequeue hlevel, .dequeue b' hlevel hid⟩

theorem modify_local (size : UInt32) (time : UInt64) (hlevel : (side, price) ∈ levels)
    (hid : id ∈ ids) (hrest : ∀ place, b.place id = some place → place ∈ levels) :
    Local levels ids b fun b => b.modify id price size side time := by
  intro b' h
  dsimp only [modify]
  rw [h.find?_eq hid hrest]
  cases hfound : b.find? id with
  | none => exact ⟨rfl, h.enqueue hlevel, .enqueue b' hlevel hid⟩
  | some found =>
    obtain ⟨side', price', entry⟩ := found
    have hlevel' := hrest _ (place_of_find? hfound)
    dsimp only
    split_ifs with hside hprice hsize
    · exact .kept h _
    · obtain rfl : side' = side := not_not.mp hside
      refine ⟨rfl, (h.dequeue hlevel').enqueue hlevel, ?_⟩
      exact (SameBut.dequeue b' hlevel' hid).trans (.enqueue _ hlevel hid)
    · refine ⟨rfl, (h.dequeue hlevel).enqueue hlevel, ?_⟩
      exact (SameBut.dequeue b' hlevel hid).trans (.enqueue _ hlevel hid)
    · rw [h.queue side price hlevel]
      exact ⟨rfl, h.setQueue .., .setQueue b' ids hlevel⟩

theorem tradeAlong_alike (hlevel : (side, price) ∈ levels) (hids : ∀ entry ∈ entries, entry.id ∈ ids)
    (report : TradeReport) (h : SameAt levels ids b b') :
    Alike levels ids b' (tradeAlong side price entries report b)
      (tradeAlong side price entries report b') := by
  induction entries generalizing report b b' with
  | nil => exact .kept h report
  | cons entry rest ih =>
    unfold tradeAlong
    split
    · exact .kept h report
    · split
      · exact ⟨rfl, h.setQueue .., .setQueue b' ids hlevel⟩
      · have hid : entry.id ∈ ids := hids entry List.mem_cons_self
        have hrest : ∀ other ∈ rest, other.id ∈ ids := fun other hother =>
          hids other (List.mem_cons_of_mem entry hother)
        have hsame := (h.setQueue side price rest).setPlace entry.id none
        obtain ⟨hanswer, hinside, houtside⟩ := ih hrest _ hsame
        refine ⟨hanswer, hinside, SameBut.trans ?_ houtside⟩
        exact (SameBut.setQueue b' ids hlevel).trans (.setPlace _ levels hid none)

theorem trade_local (id : UInt64) (size : UInt32) (hlevel : (side.opposite, price) ∈ levels)
    (hids : ∀ entry ∈ b.queue side.opposite price, entry.id ∈ ids) :
    Local levels ids b fun b => b.trade id price size side := by
  intro b' h
  dsimp only [trade]
  rw [h.queue side.opposite price hlevel]
  exact tradeAlong_alike hlevel hids _ h

/-! ## Messages -/

/-- The ids of the orders that a message may change. -/
def named (b : PlainBook) (m : Message) : List UInt64 :=
  match m.action with
  | .trade => (b.queue m.side.opposite m.price).map Entry.id
  | _ => [m.id]

/-- A message is local to the levels it touches and the ids of the orders it may change. -/
theorem process_local (b : PlainBook) (m : Message) :
    Local (m.touched (b.place m.id)) (b.named m) b fun b => b.process m := by
  have hid : m.id ∈ [m.id] := List.mem_singleton_self m.id
  have hlevel : (m.side, m.price) ∈ (m.side, m.price) :: (b.place m.id).toList := List.mem_cons_self
  have hrest : ∀ place, b.place m.id = some place → place ∈ (b.place m.id).toList := by
    intro place hplace
    rw [hplace]
    exact List.mem_singleton_self place
  unfold process Message.touched named
  cases m.action with
  | add => exact (b.add_local m.size m.time hlevel hid).map _
  | cancel => exact (remove_local hid hrest).map _
  | modify =>
    have hmodify := modify_local m.size m.time hlevel hid fun place hplace =>
      List.mem_cons_of_mem _ (hrest place hplace)
    exact hmodify.map _
  | trade =>
    have hentries : ∀ entry ∈ b.queue m.side.opposite m.price,
        entry.id ∈ (b.queue m.side.opposite m.price).map Entry.id :=
      fun entry hentry => List.mem_map_of_mem hentry
    have htrade := trade_local m.id m.size (List.mem_singleton_self _) hentries
    exact htrade.map fun report => (Except.ok (.traded report) : Except BookError Applied)

end PlainBook

end PriceTime
