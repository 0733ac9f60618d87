import PriceTime.Proofs.Book.Holdings
import PriceTime.Proofs.Run

/-!
# The ledger of a side

Whoever writes down what a session answers knows what rests in its book. A ledger of one side has a
column for each way in which its orders and their sizes come and go: orders that are added, sizes
that are modified, orders that are cancelled, and what trades take. Each call is posted as its answer
says, and a new start opens a new ledger. The ledger always balances with the book.

A trade reports the orders it filled in a word, so a trade that fills `2 ^ 32` orders or more reports
too few of them; as long as fewer rest at any time, none does.

* `Posting`: what the answer to a call says of the resting orders.
* `Book.Posts`: what a posting says of a book before and after.
* `Session.call_posts`: each call does to the book what its answer says.
* `Session.run_balances`: what one posting preserves, a run preserves.
* `Session.run_ledger`: the ledger of a run balances with the book it leads to.
-/

namespace PriceTime

/-! ## Postings -/

/-- What the answer to a call says of the resting orders. -/
inductive Posting where
  /-- An order came in. -/
  | arrival (side : Side) (size : UInt32)
  /-- An order got another size. -/
  | change (side : Side) (old new : UInt32)
  /-- An order was cancelled, with what remained of it. -/
  | departure (side : Side) (size : UInt32)
  /-- A trade was matched against the orders of a side. -/
  | trade (side : Side) (report : TradeReport)
  /-- Everything started over. -/
  | restart
  | nothing

namespace Posting

/-- What the answer to an add says. -/
def ofAdd (size : UInt32) (side : Side) : Except BookError Slot → Posting
  | .ok _ => arrival side size
  | .error _ => nothing

/-- What the order says that a cancel hands back. -/
def ofRemove : Except BookError Order → Posting
  | .ok order => departure order.side order.size
  | .error _ => nothing

/-- What the answer to a modify says, given the book before: the old size is in there. -/
def ofModify (b : Book) (id : UInt64) (size : UInt32) (side : Side) :
    Except BookError ModifyOutcome → Posting
  | .ok .added => arrival side size
  | .ok _ =>
    match b.get? id with
    | some order => change side order.size size
    | none => nothing
  | .error _ => nothing

/-- What the id says that a cancelling message is answered with, given the book before. -/
def ofCancel (b : Book) : Except BookError UInt64 → Posting
  | .ok id =>
    match b.get? id with
    | some order => departure order.side order.size
    | none => nothing
  | .error _ => nothing

theorem ofCancel_of_get? {b : Book} {id : UInt64} {order : Order} (h : b.get? id = some order) :
    ofCancel b (.ok id) = departure order.side order.size := by
  unfold ofCancel
  dsimp only
  rw [h]

/-- What the answer to a message says, given the book before. -/
def ofMessage (b : Book) (m : Message) : Except BookError Applied → Posting
  | .ok (.added slot) => ofAdd m.size m.side (.ok slot)
  | .ok (.cancelled id) => ofCancel b (.ok id)
  | .ok (.modified outcome) => ofModify b m.id m.size m.side (.ok outcome)
  | .ok (.traded report) => trade m.side.opposite report
  | .error _ => nothing

end Posting

/-- What the answer to a call says of the resting orders, given the session before. -/
def Session.posting (s : Session) : Call → Answer → Posting
  | .process m, .processed result => .ofMessage s.book m result
  | .add _ _ size side _, .added result => .ofAdd size side result
  | .remove _, .removed result => .ofRemove result
  | .modify id _ size side _, .modified result => .ofModify s.book id size side result
  | .trade _ _ _ side, .traded report => .trade side.opposite report
  | .reset, _ => .restart
  | _, _ => .nothing

/-! ## Ledgers -/

/-- The columns of a ledger of one side. -/
structure Ledger where
  /-- How many orders were added, by adds and by modifies. -/
  arrivals : Nat := 0
  /-- The sizes they were added with. -/
  added : Nat := 0
  /-- The new sizes less the old ones, over all modifies of resting orders. -/
  changed : Int := 0
  /-- How many orders were cancelled. -/
  cancels : Nat := 0
  /-- What remained of them. -/
  cancelled : Nat := 0
  /-- How many orders trades report to have filled. -/
  filled : Nat := 0
  /-- What trades report to have taken. -/
  traded : Nat := 0
deriving DecidableEq

/-- Enter a posting in the ledger of a side. Postings of the other side add nothing. -/
def Ledger.post (side : Side) (L : Ledger) : Posting → Ledger
  | .arrival s size => { L with
      arrivals := L.arrivals + if s = side then 1 else 0
      added := L.added + if s = side then size.toNat else 0 }
  | .change s old new =>
    let gained : Nat := if s = side then new.toNat else 0
    let lost : Nat := if s = side then old.toNat else 0
    { L with changed := L.changed + (gained - lost) }
  | .departure s size => { L with
      cancels := L.cancels + if s = side then 1 else 0
      cancelled := L.cancelled + if s = side then size.toNat else 0 }
  | .trade s report => { L with
      filled := L.filled + if s = side then report.filled.toNat else 0
      traded := L.traded + if s = side then report.traded.toNat else 0 }
  | .restart => {}
  | .nothing => L

/-- The ledger of a side after some calls. -/
def Session.ledger (side : Side) (s : Session) (L : Ledger) : List Call → Ledger
  | [] => L
  | call :: calls =>
    match s.call call with
    | .ok (answer, s', _) => s'.ledger side (L.post side (s.posting call answer)) calls
    | .error _ => L

/-! ## One operation -/

namespace Book

variable {b b' : Book} {key : LevelKey} {slot : Slot} {id : UInt64} {side : Side} {price : Int32}
  {size : UInt32} {time : UInt64} {o o' : Order} {events : List Event} {room : Prop}

/-- What a posting says of a book before and after. -/
def Posts (b : Book) : Posting → Book → Prop
  | .arrival side size, b' => ∀ s,
    b'.ordersOn s = b.ordersOn s + (if side = s then 1 else 0) ∧
      b'.sizeOn s = b.sizeOn s + (if side = s then size.toNat else 0)
  | .change side old new, b' => ∀ s,
    b'.ordersOn s = b.ordersOn s ∧ b'.sizeOn s + (if side = s then old.toNat else 0) =
      b.sizeOn s + (if side = s then new.toNat else 0)
  | .departure side size, b' => ∀ s,
    b'.ordersOn s + (if side = s then 1 else 0) = b.ordersOn s ∧
      b'.sizeOn s + (if side = s then size.toNat else 0) = b.sizeOn s
  | .trade side report, b' => ∃ orders, report.filled = UInt32.ofNat orders ∧ ∀ s,
    b'.ordersOn s + (if side = s then orders else 0) = b.ordersOn s ∧
      b'.sizeOn s + (if side = s then report.traded.toNat else 0) = b.sizeOn s
  | .restart, b' => ∀ s, b'.ordersOn s = 0 ∧ b'.sizeOn s = 0
  | .nothing, b' => ∀ s, b'.ordersOn s = b.ordersOn s ∧ b'.sizeOn s = b.sizeOn s

theorem posts_nothing (b : Book) : b.Posts .nothing b := fun _ => ⟨rfl, rfl⟩

theorem Added.posts (hadded : b.Added o b' events) (h : b.WellFormed) :
    b.Posts (.arrival o.side o.size) b' := by
  intro s
  exact ⟨ordersOn_of_arrival (card_nextKey h) hadded.card_eq s,
    sizeOn_of_arrival (card_nextKey h) hadded.card_eq s⟩

theorem Removed.posts (hremoved : b.Removed slot o key b' events) (ho : b.card slot = some o) :
    b.Posts (.departure o.side o.size) b' := by
  intro s
  exact ⟨ordersOn_of_removal ho hremoved.card_eq s, sizeOn_of_removal ho hremoved.card_eq s⟩

theorem posts_of_revision (ho : b.card slot = some o)
    (hcard : ∀ s, b'.card s = if s = slot then some o' else b.card s) (hside : o'.side = o.side) :
    b.Posts (.change o.side o.size o'.size) b' := by
  intro s
  have hsize := sizeOn_of_revision ho hcard s
  unfold sized at hsize
  rw [hside] at hsize
  exact ⟨ordersOn_of_revision ho hcard hside s, hsize⟩

theorem Traded.posts {report : TradeReport} (htraded : b.Traded id price size side report b' events)
    (h : b.WellFormed) : b.Posts (.trade side.opposite report) b' := by
  obtain ⟨orders, hfilled, horders, hsizes⟩ := htraded.takes h
  exact ⟨orders, hfilled, fun s => ⟨horders s, hsizes s⟩⟩

/-- The order with a resting id, and the slot it is in. -/
theorem exists_get? (hid : b.index[id]? = some slot) (ho : b.card slot = some o) :
    ∃ p, b.get? id = some p ∧ p.side = o.side ∧ p.size = o.size := by
  obtain ⟨p, hp, rfl⟩ := Queues.get?_of_card ho
  refine ⟨p, ?_, rfl, rfl⟩
  rw [get?, hid, Option.bind_some]
  exact hp

theorem WellFormed.add_posts (h : b.WellFormed) :
    Yields room (b.add id price size side time) fun step =>
      b.Posts (.ofAdd size side step.result) step.state := by
  cases hnew : b.contains id with
  | true =>
    rw [add_of_contains hnew]
    exact Yields.ok b.posts_nothing
  | false =>
    refine (h.add hnew).mono ?_
    rintro ⟨result, state, events⟩ ⟨hresult, -, hadded⟩
    dsimp only at hresult
    subst hresult
    exact hadded.posts h

/-- A cancel hands back the order that rested under its id. -/
theorem WellFormed.remove_posts (h : b.WellFormed) :
    Yields b.HasRoom (b.remove id) fun step =>
      b.Posts (.ofRemove step.result) step.state ∧ ∀ order, step.result = .ok order →
        ∃ p, b.get? order.id = some p ∧ p.side = order.side ∧ p.size = order.size := by
  cases hid : b.index[id]? with
  | none =>
    rw [remove_of_none hid]
    exact Yields.ok ⟨b.posts_nothing, nofun⟩
  | some slot =>
    obtain ⟨o, ho, rfl⟩ := h.index_iff.mp hid
    obtain ⟨key, hlevel⟩ := h.settled ho
    refine (h.remove hid ho hlevel).mono ?_
    rintro ⟨result, state, events⟩ ⟨hresult, -, hremoved⟩
    dsimp only at hresult
    subst hresult
    refine ⟨hremoved.posts ho, ?_⟩
    rintro order ⟨⟩
    exact exists_get? (o := o) hid ho

theorem Modified.posts {result : Except BookError ModifyOutcome}
    (hmodified : b.Modified id price size side time result b' events) (h : b.WellFormed) :
    b.Posts (.ofModify b id size side result) b' := by
  -- Whatever an order of the side does that keeps it in the book, its old size is looked up.
  have hchange : ∀ {slot : Slot} {o o' : Order} {outcome : ModifyOutcome},
      b.index[id]? = some slot → b.card slot = some o → o.side = side →
      (∀ s, b'.card s = if s = slot then some o' else b.card s) → o'.side = o.side →
      o'.size = size → outcome ≠ .added → b.Posts (.ofModify b id size side (.ok outcome)) b' := by
    intro slot o o' outcome hid ho hside hcard hside' hsize houtcome
    obtain ⟨p, hp, -, hpsize⟩ := exists_get? hid ho
    have hposts := posts_of_revision ho hcard hside'
    rw [hside, hsize, ← hpsize] at hposts
    unfold Posting.ofModify
    rw [hp]
    cases outcome with
    | added => exact absurd rfl houtcome
    | resized | requeued | repriced => exact hposts
  cases hmodified with
  | added _ hadded => exact hadded.posts h
  | rejected => exact b.posts_nothing
  | repriced hid ho _ hside _ hrepriced =>
    exact hchange hid ho hside hrepriced.card_eq rfl rfl nofun
  | requeued hid ho hside _ _ halters =>
    exact hchange hid ho hside (halters.card_of ho) rfl rfl nofun
  | resized hid ho hside _ _ halters =>
    exact hchange hid ho hside (halters.card_of ho) rfl rfl nofun

theorem WellFormed.modify_posts (h : b.WellFormed) :
    Yields b.HasRoom (b.modify id price size side time) fun step =>
      b.Posts (.ofModify b id size side step.result) step.state := by
  refine h.modify.mono ?_
  rintro step ⟨-, hmodified⟩
  exact hmodified.posts h

end Book

/-! ## One call -/

namespace Session

variable {s s' : Session} {L : Ledger} {side : Side} {log : List (Answer × List Event)}

theorem cancel_posts (h : s.book.WellFormed) {id : UInt64} {side : Side} :
    Yields s.book.HasRoom (s.cancel id side) fun step =>
      s.book.Posts (.ofCancel s.book step.result) step.state.book := by
  unfold cancel
  refine (onBook_spec h.remove_posts).bind ?_
  rintro ⟨result, state, events⟩ ⟨hposts, hreturned⟩
  cases result with
  | error error => exact Yields.ok hposts
  | ok order =>
    obtain ⟨p, hp, hside, hsize⟩ := hreturned order rfl
    apply Yields.ok
    dsimp only at hposts ⊢
    rw [Posting.ofCancel_of_get? hp, hside, hsize]
    exact hposts

theorem trade_posts (h : s.book.WellFormed) {id : UInt64} {price : Int32} {size : UInt32}
    {side : Side} :
    Yields s.book.HasRoom (s.trade id price size side) fun r =>
      s.book.Posts (.trade side.opposite r.1) r.2.1.book :=
  trade_spec ((h.trade id price size side).mono fun _ hr => hr.2.posts h)

theorem process_posts (h : s.book.WellFormed) (m : Message) :
    Yields s.book.HasRoom (s.process m) fun step =>
      s.book.Posts (.ofMessage s.book m step.result) step.state.book := by
  have htick : (s.tick m.time).book.WellFormed := h
  unfold process
  cases m.action with
  | add =>
    refine (onBook_spec htick.add_posts).bind ?_
    rintro ⟨result, state, events⟩ hposts
    cases result <;> exact Yields.ok hposts
  | cancel =>
    refine (cancel_posts htick).bind ?_
    rintro ⟨result, state, events⟩ hposts
    cases result <;> exact Yields.ok hposts
  | modify =>
    refine (onBook_spec htick.modify_posts).bind ?_
    rintro ⟨result, state, events⟩ hposts
    cases result <;> exact Yields.ok hposts
  | trade =>
    refine (trade_posts htick).bind ?_
    intro r hposts
    exact Yields.ok hposts

/-- Each call does to the book what its answer says. -/
theorem call_posts (h : s.book.WellFormed) (call : Call) :
    Yields s.book.HasRoom (s.call call) fun r =>
      s.book.Posts (s.posting call r.1) r.2.1.book := by
  cases call with
  | process m => exact (process_posts h m).bind fun step hposts => Yields.ok hposts
  | add => exact (onBook_spec h.add_posts).bind fun step hposts => Yields.ok hposts
  | remove => exact (onBook_spec h.remove_posts).bind fun step hposts => Yields.ok hposts.1
  | modify => exact (onBook_spec h.modify_posts).bind fun step hposts => Yields.ok hposts
  | trade => exact (trade_posts h).bind fun r hposts => Yields.ok hposts
  | drawVolumes | drawImbalance | drawSkew | drawChange | drawMid =>
    exact Yields.ok s.book.posts_nothing
  | reset =>
    apply Yields.ok
    intro side
    show s.book.clear.ordersOn side = 0 ∧ s.book.clear.sizeOn side = 0
    rw [h.clear_eq]
    exact ⟨rfl, rfl⟩

end Session

/-! ## A run -/

/-- A ledger of a side balances with a book, when the words of the trades lost `wraps` turns. -/
structure Ledger.Balances (side : Side) (L : Ledger) (b : Book) (wraps : Nat) : Prop where
  orders : b.ordersOn side + L.cancels + L.filled + 2 ^ 32 * wraps = L.arrivals
  size : (b.sizeOn side : Int) = L.added + L.changed - L.cancelled - L.traded

namespace Ledger.Balances

variable {side : Side} {L : Ledger} {b b' : Book} {wraps : Nat} {p : Posting}

theorem arrival {s : Side} {size : UInt32} (h : L.Balances side b wraps)
    (hposts : b.Posts (.arrival s size) b') :
    (L.post side (.arrival s size)).Balances side b' wraps := by
  obtain ⟨horders, hsize⟩ := h
  obtain ⟨horders', hsize'⟩ := hposts side
  constructor
  · dsimp only [Ledger.post]
    omega
  · dsimp only [Ledger.post]
    omega

theorem change {s : Side} {old new : UInt32} (h : L.Balances side b wraps)
    (hposts : b.Posts (.change s old new) b') :
    (L.post side (.change s old new)).Balances side b' wraps := by
  obtain ⟨horders, hsize⟩ := h
  obtain ⟨horders', hsize'⟩ := hposts side
  constructor
  · dsimp only [Ledger.post]
    omega
  · dsimp only [Ledger.post]
    omega

theorem departure {s : Side} {size : UInt32} (h : L.Balances side b wraps)
    (hposts : b.Posts (.departure s size) b') :
    (L.post side (.departure s size)).Balances side b' wraps := by
  obtain ⟨horders, hsize⟩ := h
  obtain ⟨horders', hsize'⟩ := hposts side
  constructor
  · dsimp only [Ledger.post]
    omega
  · dsimp only [Ledger.post]
    omega

/-- A trade reports the orders it filled up to a multiple of `2 ^ 32`. -/
theorem trade {s : Side} {report : TradeReport} (h : L.Balances side b wraps)
    (hb : b.WellFormed) (hposts : b.Posts (.trade s report) b') :
    ∃ more, (L.post side (.trade s report)).Balances side b' (wraps + more) ∧
      (b.queues.orders.size < 2 ^ 32 → more = 0) := by
  obtain ⟨horders, hsize⟩ := h
  obtain ⟨taken, hfilled, hall⟩ := hposts
  obtain ⟨horders', hsize'⟩ := hall side
  have hword : report.filled.toNat = taken % 2 ^ 32 := by
    rw [hfilled]
    exact UInt32.toNat_ofNat
  have hturns := Nat.mod_add_div taken (2 ^ 32)
  by_cases hs : s = side
  · rw [if_pos hs] at horders'
    refine ⟨taken / 2 ^ 32, ⟨?_, ?_⟩, ?_⟩
    · dsimp only [Ledger.post]
      rw [if_pos hs, hword]
      omega
    · dsimp only [Ledger.post]
      omega
    · intro hroom
      have hle := hb.ordersOn_le_size side
      exact Nat.div_eq_of_lt (by omega)
  · rw [if_neg hs] at horders'
    refine ⟨0, ⟨?_, ?_⟩, fun _ => rfl⟩
    · dsimp only [Ledger.post]
      rw [if_neg hs]
      omega
    · dsimp only [Ledger.post]
      omega

/-- What a posting says of the books before and after, it says of the ledger. -/
theorem post (h : L.Balances side b wraps) (hb : b.WellFormed) (hposts : b.Posts p b') :
    ∃ wraps', (L.post side p).Balances side b' wraps' ∧
      (b.queues.orders.size < 2 ^ 32 → wraps = 0 → wraps' = 0) := by
  cases p with
  | arrival s size => exact ⟨wraps, h.arrival hposts, fun _ hzero => hzero⟩
  | change s old new => exact ⟨wraps, h.change hposts, fun _ hzero => hzero⟩
  | departure s size => exact ⟨wraps, h.departure hposts, fun _ hzero => hzero⟩
  | trade s report =>
    obtain ⟨more, hbalances, hmore⟩ := h.trade hb hposts
    exact ⟨wraps + more, hbalances, fun hroom hzero => by rw [hzero, hmore hroom]⟩
  | restart =>
    obtain ⟨horders, hsize⟩ := hposts side
    refine ⟨0, ⟨?_, ?_⟩, fun _ _ => rfl⟩
    · rw [horders]
      rfl
    · rw [hsize]
      rfl
  | nothing =>
    obtain ⟨horders, hsize⟩ := hposts side
    refine ⟨wraps, ⟨?_, ?_⟩, fun _ hzero => hzero⟩
    · rw [horders]
      exact h.orders
    · rw [hsize]
      exact h.size

theorem empty (side : Side) : ({} : Ledger).Balances side Book.empty 0 := ⟨rfl, rfl⟩

end Ledger.Balances

namespace Session

variable {s s' : Session} {L : Ledger} {side : Side} {wraps : Nat} {log : List (Answer × List Event)}

/-- A ledger that balances with the book before a run balances with the book after it. -/
theorem run_balances (h : s.book.WellFormed) (hL : L.Balances side s.book wraps) {calls : List Call}
    (hrun : s.run calls = .ok (s', log)) :
    ∃ wraps', (s.ledger side L calls).Balances side s'.book wraps' ∧
      (s.Roomy calls → wraps = 0 → wraps' = 0) := by
  induction calls generalizing s L wraps log with
  | nil =>
    cases hrun
    exact ⟨wraps, hL, fun _ hzero => hzero⟩
  | cons call calls ih =>
    obtain ⟨answer, s₁, events, rest, hcall, hrest, rfl⟩ := exists_of_run_cons hrun
    have hs₁ := ((call_follows h call).sound _ hcall).wellFormed
    obtain ⟨wraps₁, hL₁, hone⟩ := hL.post h ((call_posts h call).sound _ hcall)
    obtain ⟨wraps', hL', hmany⟩ := ih hs₁ hL₁ hrest
    refine ⟨wraps', ?_, ?_⟩
    · unfold ledger
      rw [hcall]
      exact hL'
    · intro hroom hzero
      have hnow : s.book.queues.orders.size < 2 ^ 32 := h.size_index ▸ hroom.1
      exact hmany (hroom.2 answer s₁ events hcall) (hone hnow hzero)

end Session

/-! ## What the book shows -/

/-- The ledger of a side tells what a book shows: the sizes of the orders that rest there, the
volumes of the levels, and the counts. The words of the trades lost `wraps` turns. -/
structure Book.Reconciles (b : Book) (side : Side) (L : Ledger) (wraps : Nat) : Prop where
  size : (b.restingSize side : Int) = L.added + L.changed - L.cancelled - L.traded
  orders : (b.resting side).length + L.cancels + L.filled + 2 ^ 32 * wraps = L.arrivals
  /-- The volumes and the counts are words. -/
  volume : (b.levels side).foldl (fun sum level => sum + level.volume) 0 =
    UInt64.ofNat (b.restingSize side)
  count : (b.half side).count = UInt64.ofNat (b.resting side).length
  /-- With fewer than `2 ^ 32` orders no word wraps around. -/
  exact : b.index.size < 2 ^ 32 →
    ((b.levels side).map fun level => level.volume.toNat).sum = b.restingSize side ∧
      (b.half side).count.toNat = (b.resting side).length

theorem Ledger.Balances.reconciles {side : Side} {L : Ledger} {b : Book} {wraps : Nat}
    (h : L.Balances side b wraps) (hb : b.WellFormed) : b.Reconciles side L wraps := by
  have hsum := hb.restingSize_eq side
  have hlength := hb.length_resting side
  refine ⟨?_, ?_, ?_, ?_, ?_⟩
  · rw [hsum]
    exact h.size
  · rw [hlength]
    exact h.orders
  · rw [hsum]
    exact hb.foldl_volumes side
  · rw [hlength]
    exact hb.count_eq side
  · intro hroom
    rw [hb.size_index] at hroom
    rw [hsum, hlength]
    exact ⟨hb.sum_volumes hroom side, hb.toNat_count (lt_trans hroom (by decide)) side⟩

namespace Session

/-- After every run from a fresh session, the ledger of each side tells what the book shows of it.
The sizes are exact in any case, and so are the counts unless `2 ^ 32` orders rest at a time; with
fewer at any time the run comes to its end. -/
theorem run_ledger (config : BookConfig) (calls : List Call) :
    ((ofConfig config).Roomy calls → ∃ r, (ofConfig config).run calls = .ok r) ∧
      ∀ s log, (ofConfig config).run calls = .ok (s, log) → ∀ side, ∃ wraps,
        s.book.Reconciles side ((ofConfig config).ledger side {} calls) wraps ∧
          ((ofConfig config).Roomy calls → wraps = 0) := by
  have hfresh : (ofConfig config).book.WellFormed := Book.WellFormed.empty
  have hrun := run_wellFormed hfresh calls
  refine ⟨hrun.answers, ?_⟩
  intro s log hs side
  obtain ⟨wraps, hbalances, hzero⟩ := run_balances hfresh (.empty side) hs
  exact ⟨wraps, hbalances.reconciles (hrun.sound _ hs), fun hroom => hzero hroom rfl⟩

/-- An order without size, one that a modify brings in, one that moves and grows, a trade with a part
of it, a trade that fills the order without size and finds nothing else, and a cancel under the other
side. -/
theorem run_ledger_empty_order :
    ∃ s log, (ofConfig {}).run [.add 1 100 5 .bid 0, .add 2 100 0 .bid 1,
        .process ⟨.modify, 3, 99, 4, .bid, 2⟩, .modify 1 101 9 .bid 3, .trade 9 101 3 .ask,
        .process ⟨.trade, 10, 100, 4, .ask, 5⟩, .process ⟨.cancel, 3, 0, 0, .ask, 6⟩] =
          .ok (s, log) ∧
      s.book.Reconciles .bid {
        arrivals := 3, added := 9, changed := 4, cancels := 1, cancelled := 4, filled := 1
        traded := 3 } 0 := by
  obtain ⟨hanswers, hledger⟩ := run_ledger {} [.add 1 100 5 .bid 0, .add 2 100 0 .bid 1,
    .process ⟨.modify, 3, 99, 4, .bid, 2⟩, .modify 1 101 9 .bid 3, .trade 9 101 3 .ask,
    .process ⟨.trade, 10, 100, 4, .ask, 5⟩, .process ⟨.cancel, 3, 0, 0, .ask, 6⟩]
  have hroom := roomy_of_length_lt {} [.add 1 100 5 .bid 0, .add 2 100 0 .bid 1,
    .process ⟨.modify, 3, 99, 4, .bid, 2⟩, .modify 1 101 9 .bid 3, .trade 9 101 3 .ask,
    .process ⟨.trade, 10, 100, 4, .ask, 5⟩, .process ⟨.cancel, 3, 0, 0, .ask, 6⟩] (by decide)
  obtain ⟨⟨s, log⟩, hrun⟩ := hanswers hroom
  obtain ⟨wraps, hreconciles, hzero⟩ := hledger s log hrun .bid
  rw [hzero hroom] at hreconciles
  exact ⟨s, log, hrun, hreconciles⟩

end Session

end PriceTime
