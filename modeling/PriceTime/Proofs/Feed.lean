import PriceTime.Proofs.Book.Solid
import PriceTime.Proofs.Operation
import PriceTime.Replay.Feed

/-!
# What the synthetic feed knows of the book

The feed remembers orders, and trades change the book behind its back. What it remembers stays good
enough: whatever rests is remembered with its side and its price, and the oldest order it remembers
rests once it has forgotten what is gone. So every message it sends suits the book it was sent to.

An order is modified only while it is the oldest one, in turns: it shrinks to half, and grows by
five. So no size ever exceeds 66, and only that of the oldest order exceeds 61.

* `Feed.next_sends`: the four kinds of messages a feed may send.
* `Feed.Remembers`: what a feed knows of a book.
* `Feed.Ready.step`: a message that is sent suits the book, and the feed keeps up with it.
-/

namespace PriceTime

/-- How the answer to a message shows that it suits a book. -/
inductive Message.Suits (m : Message) (b : Book) : Except BookError Applied → Prop where
  /-- A new order has a new id. -/
  | added {slot : Slot} (haction : m.action = .add) (hnew : b.contains m.id = false) :
      Suits m b (.ok (.added slot))
  /-- An order that is cancelled rests. -/
  | cancelled {o : Order} (haction : m.action = .cancel) (ho : b.get? m.id = some o)
      (hside : o.side = m.side) (hprice : o.price = m.price) :
      Suits m b (.ok (.cancelled m.id))
  /-- An order that is modified rests on its side and at its price, and stays there. -/
  | modified {o : Order} {outcome : ModifyOutcome} (haction : m.action = .modify)
      (ho : b.get? m.id = some o) (hside : o.side = m.side) (hprice : o.price = m.price)
      (houtcome : outcome = .resized ∨ outcome = .requeued) :
      Suits m b (.ok (.modified outcome))
  /-- A trade finds a level, and takes something. -/
  | traded {l : Level} {report : TradeReport} (haction : m.action = .trade)
      (hl : b.level? m.side.opposite m.price = some l) (htraded : 0 < report.traded) :
      Suits m b (.ok (.traded report))

namespace Book.WellFormed

variable {b : Book}

theorem contains_of_card (h : b.WellFormed) {slot : Slot} {o : Order} (ho : b.card slot = some o) :
    b.contains o.id = true := by
  rw [contains, Std.ExtTreeMap.contains_eq_isSome_getElem?, h.index_iff.mpr ⟨o, ho, rfl⟩]
  rfl

theorem exists_card (h : b.WellFormed) {id : UInt64} (hrests : b.contains id = true) :
    ∃ slot o, b.index[id]? = some slot ∧ b.card slot = some o ∧ o.id = id := by
  rw [contains, Std.ExtTreeMap.contains_eq_isSome_getElem?] at hrests
  obtain ⟨slot, hslot⟩ := Option.isSome_iff_exists.mp hrests
  obtain ⟨o, ho, hid⟩ := h.index_iff.mp hslot
  exact ⟨slot, o, hslot, ho, hid⟩

/-- There is a level at the best price, and orders wait there. -/
theorem of_bestPrice? (h : b.WellFormed) {side : Side} {price : Int32}
    (hbest : b.bestPrice? side = some price) :
    (∃ l, b.level? side price = some l) ∧ b.slotsAt side price ≠ [] := by
  obtain ⟨members, hstands⟩ := h.stands
  rw [bestPrice?, (hstands.shelved.sound side).best?_eq] at hbest
  obtain ⟨⟨_, key⟩, hhead, rfl⟩ := Option.map_eq_some_iff.mp hbest
  have hkey := hstands.mem_ladder.mp (List.mem_of_mem_head? hhead)
  obtain ⟨l, hl, -⟩ := hstands.level?_of_key hkey
  refine ⟨⟨l, ?_⟩, h.nonempty hkey⟩
  rw [level?, hkey, Option.bind_some]
  exact hl

end Book.WellFormed

namespace Feed

variable {f f' : Feed} {b b' : Book} {m : Message} {n : Nat} {slot : Slot} {o : Order}
  {l : LiveOrder} {result : Except BookError Applied}

/-! ## What is forgotten -/

theorem toList_forgetGone (b : Book) (live : Fifo LiveOrder) (h : live.size ≤ n) :
    (forgetGone b n live).toList = live.toList.dropWhile fun l => !b.contains l.id := by
  induction n generalizing live with
  | zero =>
    rw [← live.length_toList, Nat.le_zero] at h
    rw [List.eq_nil_of_length_eq_zero h, List.dropWhile_nil, forgetGone]
    exact List.eq_nil_of_length_eq_zero h
  | succ n ih =>
    rw [forgetGone, live.head?_eq]
    have htail := live.toList_tail
    have hlength := live.length_toList
    cases hlive : live.toList with
    | nil =>
      rw [List.head?_nil, List.dropWhile_nil]
      exact hlive
    | cons l rest =>
      rw [hlive, List.tail_cons] at htail
      rw [hlive, List.length_cons] at hlength
      rw [List.head?_cons, List.dropWhile_cons]
      have hsize : live.tail.size ≤ n := by
        rw [← live.tail.length_toList, htail]
        omega
      have ih := ih live.tail hsize
      rw [htail] at ih
      by_cases hrests : b.contains l.id = true
      · simpa [hrests] using hlive
      · simpa [hrests] using ih

theorem toList_advance (f : Feed) (b : Book) :
    (f.advance b).live.toList = f.live.toList.dropWhile fun l => !b.contains l.id :=
  toList_forgetGone b f.live (Nat.le_refl _)

/-- The oldest order that is not forgotten rests. -/
theorem contains_of_head (h : (f.advance b).live.toList.head? = some l) :
    b.contains l.id = true := by
  have hfirst := List.head?_dropWhile_not (fun l : LiveOrder => !b.contains l.id) f.live.toList
  rw [← toList_advance, h] at hfirst
  simpa using hfirst

/-- An order that rests is not forgotten. -/
theorem mem_advance (hl : l ∈ f.live.toList) (hrests : b.contains l.id = true) :
    l ∈ (f.advance b).live.toList := by
  rw [toList_advance]
  rw [← List.takeWhile_append_dropWhile (p := fun l : LiveOrder => !b.contains l.id)
    (l := f.live.toList)] at hl
  rcases List.mem_append.mp hl with htaken | hleft
  · have hgone := List.all_eq_true.mp List.all_takeWhile l htaken
    simp [hrests] at hgone
  · exact hleft

/-! ## What is sent -/

/-- Where the message with a number adds its order, if it adds one. -/
def spot (n : Nat) : Side × Int :=
  if n % 2 = 0 then (.bid, 9979 + ↑(n / 500 % 40) - ↑(n % 5))
  else (.ask, 9981 + ↑(n / 500 % 40) + ↑(n % 5))

theorem toInt32_eq (x : UInt64) : x.toUInt32.toInt32 = Int32.ofInt x.toNat := by
  apply Int32.toBitVec_inj.mp
  apply BitVec.eq_of_toNat_eq
  show x.toUInt32.toNat = (BitVec.ofInt 32 x.toNat).toNat
  rw [UInt64.toNat_toUInt32]
  simp

theorem add_spot (f : Feed) : (f.add.1.side, f.add.1.price.toInt) = spot f.seq.toNat := by
  have hparity : f.seq % 2 = 0 ↔ f.seq.toNat % 2 = 0 := by
    rw [← UInt64.toNat_inj]
    rfl
  have hmid : f.mid = Int32.ofInt (9980 + ↑(f.seq.toNat / 500 % 40)) := by
    unfold Feed.mid
    rw [toInt32_eq, show (10000 : Int32) = Int32.ofInt 10000 from rfl,
      show (20 : Int32) = Int32.ofInt 20 from rfl, ← Int32.ofInt_add, ← Int32.ofInt_sub]
    congr 1
    show 10000 + ((f.seq.toNat / 500 % 40 : Nat) : Int) - 20 = _
    omega
  have hoffset : 1 + (f.seq % 5).toUInt32.toInt32 = Int32.ofInt (1 + ↑(f.seq.toNat % 5)) := by
    rw [toInt32_eq, Int32.ofInt_add]
    rfl
  obtain ⟨seq, id, time, live⟩ := f
  unfold add spot
  dsimp only at hparity hmid hoffset ⊢
  simp only [hparity, hmid, hoffset, ← Int32.ofInt_add, ← Int32.ofInt_sub]
  split
  · refine Prod.ext rfl ?_
    dsimp only
    rw [Int32.toInt_ofInt_of_le (by omega) (by omega)]
    omega
  · refine Prod.ext rfl ?_
    dsimp only
    rw [Int32.toInt_ofInt_of_le (by omega) (by omega)]
    omega

/-- The messages a feed may send once it has moved on, and the feed afterwards. -/
inductive Sends (f : Feed) (b : Book) : Message → Feed → Prop where
  | added {price : Int32} {size : UInt32} {side : Side} (hpos : 0 < size) (hle : size ≤ 61)
      (hfirst : f.seq.toNat % 20 = 7 → f.live.toList = [])
      (hspot : (side, price.toInt) = spot f.seq.toNat) :
      Sends f b { action := .add, id := f.nextId, price, size, side, time := f.time }
        { f with
          nextId := f.nextId + 1
          live := f.live.push { id := f.nextId, price, side, size } }
  | cancelled {l : LiveOrder} {rest : Fifo LiveOrder} (hlive : f.live.toList = l :: rest.toList) :
      Sends f b
        { action := .cancel, id := l.id, price := l.price, size := l.size, side := l.side,
          time := f.time }
        { f with live := rest }
  | modified {l : LiveOrder} {rest : List LiveOrder} {live : Fifo LiveOrder}
      (hlive : f.live.toList = l :: rest) (hturn : f.seq.toNat % 10 = 7)
      (hlive' : live.toList = { l with size := f.nextSize l.size } :: rest) :
      Sends f b
        { action := .modify, id := l.id, price := l.price, size := f.nextSize l.size,
          side := l.side, time := f.time }
        { f with live }
  | traded {price : Int32} {side : Side} (hbest : b.bestPrice? side.opposite = some price)
      (hturn : f.seq.toNat % 10 = 8) :
      Sends f b { action := .trade, id := f.nextId, price, size := 15, side, time := f.time }
        { f with nextId := f.nextId + 1 }

theorem add_sends (hfirst : f.seq.toNat % 20 = 7 → f.live.toList = []) :
    Sends f b f.add.1 f.add.2 := by
  have hsmall : (f.seq % 7).toUInt32.toNat ≤ 6 := by
    have := Nat.mod_lt f.seq.toNat (show 7 > 0 by decide)
    simp only [UInt64.toNat_toUInt32, UInt64.toNat_mod, UInt64.reduceToNat]
    omega
  have hsize : (1 + (f.seq % 7).toUInt32 * 10).toNat = 1 + (f.seq % 7).toUInt32.toNat * 10 := by
    rw [UInt32.toNat_add, UInt32.toNat_mul]
    simp only [UInt32.reduceToNat]
    omega
  have hpos : 0 < 1 + (f.seq % 7).toUInt32 * 10 := by
    rw [UInt32.lt_iff_toNat_lt, hsize, UInt32.toNat_zero]
    omega
  have hle : 1 + (f.seq % 7).toUInt32 * 10 ≤ 61 := by
    rw [UInt32.le_iff_toNat_le, hsize, show (61 : UInt32).toNat = 61 from rfl]
    omega
  have hspot := f.add_spot
  obtain ⟨seq, id, time, live⟩ := f
  by_cases heven : seq % 2 = 0
  · simp only [add, heven, if_true] at hspot ⊢
    exact .added hpos hle hfirst hspot
  · simp only [add, heven, if_false] at hspot ⊢
    exact .added hpos hle hfirst hspot

theorem tradeAtBest_sends (hturn : f.seq.toNat % 10 = 8) :
    Sends f b (f.tradeAtBest b).1 (f.tradeAtBest b).2 := by
  have hadd : Sends f b f.add.1 f.add.2 := add_sends fun _ => by omega
  unfold tradeAtBest
  split
  · split
    · exact .traded (by assumption) hturn
    · exact .traded (by assumption) hturn
  · split
    · exact .traded (by assumption) hturn
    · exact hadd
  · exact .traded (by assumption) hturn
  · exact hadd

/-- An order is cancelled while more than 64 are remembered. -/
theorem cancelOrAdd_sends (hturn : f.seq.toNat % 10 ≠ 7) {send : Message × Feed}
    (hsend : send = if 64 < f.live.size then
        match f.live.pop? with
        | some (order, rest) => f.cancel order rest
        | none => f.add
      else f.add) : Sends f b send.1 send.2 := by
  have hadd : Sends f b f.add.1 f.add.2 := add_sends fun _ => by omega
  have hpop := f.live.toList_pop?
  subst hsend
  split
  · split
    · rename_i l rest heq
      rw [heq, Option.map_some] at hpop
      by_cases hnil : f.live.toList = []
      · rw [if_pos hnil] at hpop
        cases hpop
      · rw [if_neg hnil] at hpop
        exact .cancelled (Option.some.inj hpop).symm
    · exact hadd
  · exact hadd

theorem modifyOrAdd_sends (hturn : f.seq.toNat % 10 = 7) {send : Message × Feed}
    (hsend : send = match f.live.head? with
      | some order => f.modify order
      | none => f.add) : Sends f b send.1 send.2 := by
  have hhead := f.live.head?_eq
  subst hsend
  split
  · rename_i l heq
    rw [heq] at hhead
    obtain ⟨rest, hlive⟩ := List.head?_eq_some_iff.mp hhead.symm
    refine .modified hlive hturn ?_
    rw [Fifo.toList_modifyHead, hlive]
    rfl
  · rename_i heq
    rw [heq] at hhead
    exact add_sends fun _ => List.head?_eq_none_iff.mp hhead.symm

/-- A feed sends one of the four kinds of messages. -/
theorem next_sends (f : Feed) (b : Book) :
    Sends (f.advance b) b (f.next b).1 (f.next b).2 := by
  unfold next
  generalize f.advance b = f
  have hmod (k : UInt64) : f.seq % 10 = k ↔ f.seq.toNat % 10 = k.toNat := by
    rw [← UInt64.toNat_inj, UInt64.toNat_mod]
    rfl
  dsimp only
  split
  · rename_i hturn
    have hturn : f.seq.toNat % 10 = 5 := (hmod 5).mp hturn
    exact cancelOrAdd_sends (by omega) rfl
  · rename_i hturn
    have hturn : f.seq.toNat % 10 = 6 := (hmod 6).mp hturn
    exact cancelOrAdd_sends (by omega) rfl
  · rename_i hturn
    exact modifyOrAdd_sends ((hmod 7).mp hturn) rfl
  · rename_i hturn
    exact tradeAtBest_sends ((hmod 8).mp hturn)
  · rename_i _ _ hother _
    refine add_sends fun hturn => ?_
    have hseven : f.seq.toNat % 10 = 7 := by omega
    exact absurd ((hmod 7).mpr hseven) hother

theorem Sends.seq_eq (hsends : f.Sends b m f') : f'.seq = f.seq := by
  cases hsends <;> rfl

theorem Sends.nextId_eq (hsends : f.Sends b m f') :
    f'.nextId = f.nextId ∨ f'.nextId = f.nextId + 1 := by
  cases hsends with
  | added | traded => exact .inr rfl
  | cancelled | modified => exact .inl rfl

/-! ## What is remembered -/

/-- How large the oldest order may be after `n` messages. -/
def crest (n : Nat) : Nat :=
  if 7 ≤ n % 20 ∧ n % 20 < 17 then 61 else 66

theorem le_crest (n : Nat) : 61 ≤ crest n := by
  unfold crest
  split <;> decide

/-- The oldest order is not larger than `crest`, no other one is larger than 61, and all have a size.
-/
def Sized (crest : Nat) : List LiveOrder → Prop
  | [] => True
  | l :: rest => (0 < l.size ∧ l.size.toNat ≤ crest) ∧
    ∀ l' ∈ rest, 0 < l'.size ∧ l'.size.toNat ≤ 61

theorem sized_of_small {xs : List LiveOrder} (h : ∀ l ∈ xs, 0 < l.size ∧ l.size.toNat ≤ 61) (n : Nat) :
    Sized (crest n) xs := by
  cases xs with
  | nil => trivial
  | cons l rest =>
    obtain ⟨hpos, hle⟩ := h l (List.mem_cons_self ..)
    exact ⟨⟨hpos, hle.trans (le_crest n)⟩, fun l' hl' => h l' (List.mem_cons_of_mem _ hl')⟩

theorem Sized.dropWhile {xs : List LiveOrder} (h : Sized (crest n) xs) (p : LiveOrder → Bool) :
    Sized (crest n) (xs.dropWhile p) := by
  cases xs with
  | nil => exact h
  | cons l rest =>
    rw [List.dropWhile_cons]
    split
    · exact sized_of_small (fun l' hl' => h.2 l' ((List.dropWhile_sublist p).subset hl')) n
    · exact h

/-- Unless the oldest order has to shrink, it may stay as it is. -/
theorem Sized.succ {xs : List LiveOrder} (h : Sized (crest n) xs) (hturn : (n + 1) % 20 ≠ 7) :
    Sized (crest (n + 1)) xs := by
  have hle : crest n ≤ crest (n + 1) := by
    unfold crest
    split <;> split <;> omega
  cases xs with
  | nil => exact h
  | cons l rest => exact ⟨⟨h.1.1, h.1.2.trans hle⟩, h.2⟩

/-- What a feed knows of a book after `n` messages. -/
structure Remembers (f : Feed) (b : Book) (n : Nat) : Prop where
  /-- What rests is remembered, with its side and its price. -/
  recalled : ∀ {slot o}, b.card slot = some o →
    ∃ l ∈ f.live.toList, l.id = o.id ∧ l.side = o.side ∧ l.price = o.price
  /-- No order without a size rests. -/
  size_pos : ∀ {slot o}, b.card slot = some o → 0 < o.size
  nodup : (f.live.toList.map LiveOrder.id).Nodup
  id_lt : ∀ l ∈ f.live.toList, l.id < f.nextId
  sized : Sized (crest n) f.live.toList

theorem remembers_empty (time : UInt64) : ({ time } : Feed).Remembers Book.empty 0 where
  recalled h := by simp [Book.card, Book.empty, Queues.card, Queues.empty] at h
  size_pos h := by simp [Book.card, Book.empty, Queues.card, Queues.empty] at h
  nodup := List.nodup_nil
  id_lt _ hl := by cases hl
  sized := trivial

theorem Remembers.solid (hf : f.Remembers b n) : b.Solid :=
  fun _ _ ho => hf.size_pos ho

/-- Moving on forgets nothing that rests. -/
theorem Remembers.advance (hf : f.Remembers b n) (h : b.WellFormed) :
    (f.advance b).Remembers b n := by
  have hsub : (f.advance b).live.toList.Sublist f.live.toList := by
    rw [toList_advance]
    exact List.dropWhile_sublist _
  refine ⟨?_, hf.size_pos, hf.nodup.sublist (hsub.map _), fun l hl => hf.id_lt l (hsub.subset hl),
    ?_⟩
  · intro slot o ho
    obtain ⟨l, hl, hid, hplace⟩ := hf.recalled ho
    exact ⟨l, mem_advance hl (hid ▸ h.contains_of_card ho), hid, hplace⟩
  · rw [toList_advance]
    exact hf.sized.dropWhile _

/-- An order is remembered once. -/
theorem Remembers.entry_eq (hf : f.Remembers b n) (hl : l ∈ f.live.toList)
    (ho : b.card slot = some o) (hid : o.id = l.id) : l.side = o.side ∧ l.price = o.price := by
  obtain ⟨l', hl', hid', hplace⟩ := hf.recalled ho
  obtain rfl := List.inj_on_of_nodup_map hf.nodup hl' hl (hid'.trans hid)
  exact hplace

/-! ## One message -/

/-- A new order has a new id. -/
theorem Remembers.added {price : Int32} {size : UInt32} {side : Side} (hf : f.Remembers b n)
    (h : b.WellFormed) (hseq : f.seq.toNat = n + 1) (hroom : f.nextId.toNat + 1 < 2 ^ 64)
    (hpos : 0 < size) (hle : size ≤ 61) (hfirst : f.seq.toNat % 20 = 7 → f.live.toList = [])
    (hperforms : b.Performs (.add f.nextId price size side f.time) result b') :
    ({ action := .add, id := f.nextId, price, size, side, time := f.time } : Message).Suits b
        result ∧
      ({ f with
        nextId := f.nextId + 1
        live := f.live.push { id := f.nextId, price, side, size } } : Feed).Remembers b' (n + 1) := by
  have hsucc : (f.nextId + 1).toNat = f.nextId.toNat + 1 := by
    rw [UInt64.toNat_add, UInt64.toNat_one, Nat.mod_eq_of_lt hroom]
  have hnew : b.contains f.nextId = false := by
    by_contra hrests
    obtain ⟨slot, o, -, ho, hid⟩ := h.exists_card (Bool.not_eq_false _ ▸ hrests)
    obtain ⟨l, hl, hlid, -⟩ := hf.recalled ho
    have hlt := hf.id_lt l hl
    rw [hlid, hid] at hlt
    exact UInt64.lt_irrefl _ hlt
  cases hperforms with
  | duplicate hrests =>
    rw [hnew] at hrests
    cases hrests
  | added _ hadded =>
    refine ⟨.added rfl hnew, ?_, ?_, ?_, ?_, ?_⟩
    · intro slot o ho
      rw [hadded.card_eq] at ho
      simp only [Fifo.toList_push, List.mem_append, List.mem_singleton]
      split at ho
      · cases ho
        exact ⟨_, .inr rfl, rfl, rfl, rfl⟩
      · obtain ⟨l, hl, hplace⟩ := hf.recalled ho
        exact ⟨l, .inl hl, hplace⟩
    · exact fun ho => hf.solid.of_revised hadded.card_eq hpos _ _ ho
    · rw [Fifo.toList_push, List.map_append, List.nodup_append]
      refine ⟨hf.nodup, List.nodup_singleton _, ?_⟩
      rintro _ hid _ hnext rfl
      obtain ⟨l, hl, rfl⟩ := List.mem_map.mp hid
      have hlt := hf.id_lt l hl
      rw [List.mem_singleton.mp hnext] at hlt
      exact UInt64.lt_irrefl _ hlt
    · intro l hl
      rw [Fifo.toList_push, List.mem_append, List.mem_singleton] at hl
      rw [UInt64.lt_iff_toNat_lt, hsucc]
      rcases hl with hl | rfl
      · have := UInt64.lt_iff_toNat_lt.mp (hf.id_lt l hl)
        omega
      · exact Nat.lt_succ_self _
    · have hsmall : size.toNat ≤ 61 := UInt32.le_iff_toNat_le.mp hle
      rw [Fifo.toList_push]
      by_cases hturn : (n + 1) % 20 = 7
      · rw [hfirst (hseq ▸ hturn)]
        exact ⟨⟨hpos, hsmall.trans (le_crest _)⟩, nofun⟩
      · have hsized := hf.sized.succ hturn
        revert hsized
        cases f.live.toList with
        | nil => exact fun _ => ⟨⟨hpos, hsmall.trans (le_crest _)⟩, nofun⟩
        | cons l rest =>
          intro hsized
          refine ⟨hsized.1, ?_⟩
          intro l' hl'
          rcases List.mem_append.mp hl' with hl' | hl'
          · exact hsized.2 l' hl'
          · obtain rfl := List.mem_singleton.mp hl'
            exact ⟨hpos, hsmall⟩

/-- The oldest order rests, so it can be cancelled. -/
theorem Remembers.cancelled {rest : Fifo LiveOrder} (hf : f.Remembers b n) (h : b.WellFormed)
    (hlive : f.live.toList = l :: rest.toList) (hrests : b.contains l.id = true)
    (hperforms : b.Performs (.cancel l.id) result b') :
    ({ action := .cancel, id := l.id, price := l.price, size := l.size, side := l.side,
        time := f.time } : Message).Suits b result ∧
      ({ f with live := rest } : Feed).Remembers b' (n + 1) := by
  have hl : l ∈ f.live.toList := hlive ▸ List.mem_cons_self ..
  have hnodup := hf.nodup
  have hsized := hf.sized
  rw [hlive] at hnodup hsized
  rw [List.map_cons, List.nodup_cons] at hnodup
  obtain ⟨slot, o, hslot, ho, hid⟩ := h.exists_card hrests
  cases hperforms with
  | unknown hnone =>
    rw [hslot] at hnone
    cases hnone
  | cancelled hslot' hp hremoved =>
    obtain rfl := Option.some.inj (hslot'.symm.trans hslot)
    obtain rfl := Option.some.inj (hp.symm.trans ho)
    obtain ⟨hside, hprice⟩ := hf.entry_eq hl ho hid
    obtain ⟨p, hget, rfl⟩ := Book.get?_of_card hslot ho
    refine ⟨.cancelled rfl hget hside.symm hprice.symm, ?_, ?_, hnodup.2, ?_,
      sized_of_small hsized.2 _⟩
    · intro s o' ho'
      rw [hremoved.card_eq] at ho'
      split at ho'
      · cases ho'
      · rename_i hs
        obtain ⟨l', hl', hid', hplace⟩ := hf.recalled ho'
        rw [hlive] at hl'
        rcases List.mem_cons.mp hl' with rfl | hl'
        · exact absurd (h.slot_unique ho' ho (hid'.symm.trans hid.symm)) hs
        · exact ⟨l', hl', hid', hplace⟩
    · exact fun ho' => hf.solid.of_removed hremoved _ _ ho'
    · intro l' hl'
      exact hf.id_lt l' (hlive ▸ List.mem_cons_of_mem _ hl')

/-- An order shrinks before it grows again. -/
theorem nextSize_le {size : UInt32} (hseq : f.seq.toNat = n + 1) (hturn : f.seq.toNat % 10 = 7)
    (hle : size.toNat ≤ crest n) :
    0 < f.nextSize size ∧ (f.nextSize size).toNat ≤ crest (n + 1) := by
  have hmod : f.seq % 20 = 7 ↔ f.seq.toNat % 20 = 7 := by
    rw [← UInt64.toNat_inj, UInt64.toNat_mod]
    rfl
  rw [UInt32.lt_iff_toNat_lt, UInt32.toNat_zero]
  unfold nextSize
  unfold crest at hle ⊢
  split
  · rename_i hshrinks
    have hshrinks := hmod.mp hshrinks
    rw [if_neg (by omega)] at hle
    rw [if_pos (by omega)]
    have hhalf : (size / 2 + 1).toNat = size.toNat / 2 + 1 := by
      rw [UInt32.toNat_add, UInt32.toNat_div]
      simp only [UInt32.reduceToNat]
      omega
    omega
  · rename_i hgrows
    have hgrows : f.seq.toNat % 20 ≠ 7 := fun heq => hgrows (hmod.mpr heq)
    rw [if_pos (by omega)] at hle
    rw [if_neg (by omega)]
    have hmore : (size + 5).toNat = size.toNat + 5 := by
      rw [UInt32.toNat_add]
      simp only [UInt32.reduceToNat]
      omega
    omega

/-- The oldest order rests on its side and at its price, so it keeps both. -/
theorem Remembers.modified {rest : List LiveOrder} {live : Fifo LiveOrder} (hf : f.Remembers b n)
    (h : b.WellFormed) (hlive : f.live.toList = l :: rest) (hrests : b.contains l.id = true)
    (hseq : f.seq.toNat = n + 1) (hturn : f.seq.toNat % 10 = 7)
    (hlive' : live.toList = { l with size := f.nextSize l.size } :: rest)
    (hperforms : b.Performs (.modify l.id l.price (f.nextSize l.size) l.side f.time) result b') :
    ({ action := .modify, id := l.id, price := l.price, size := f.nextSize l.size, side := l.side,
        time := f.time } : Message).Suits b result ∧
      ({ f with live } : Feed).Remembers b' (n + 1) := by
  have hl : l ∈ f.live.toList := hlive ▸ List.mem_cons_self ..
  have hsized := hf.sized
  rw [hlive] at hsized
  obtain ⟨hpos, hle⟩ := nextSize_le hseq hturn hsized.1.2
  obtain ⟨slot, o, hslot, ho, hid⟩ := h.exists_card hrests
  obtain ⟨hside, hprice⟩ := hf.entry_eq hl ho hid
  -- Wherever the order stands in its queue afterwards, it has its new size.
  have hkept : ∀ {o'}, (∀ s, b'.card s = if s = slot then some o' else b.card s) → o'.id = o.id →
      o'.side = o.side → o'.price = o.price → 0 < o'.size →
      ({ f with live } : Feed).Remembers b' (n + 1) := by
    intro o' hcard hid' hside' hprice' hpos'
    refine ⟨?_, ?_, ?_, ?_, ?_⟩
    · intro s q hq
      rw [hcard] at hq
      show ∃ l' ∈ live.toList, _
      rw [hlive']
      split at hq
      · cases hq
        exact ⟨_, List.mem_cons_self .., hid.symm.trans hid'.symm, hside.trans hside'.symm,
          hprice.trans hprice'.symm⟩
      · obtain ⟨l', hl', hplace⟩ := hf.recalled hq
        rw [hlive] at hl'
        rcases List.mem_cons.mp hl' with rfl | hl'
        · exact ⟨_, List.mem_cons_self .., hplace⟩
        · exact ⟨l', List.mem_cons_of_mem _ hl', hplace⟩
    · exact fun hq => hf.solid.of_revised hcard hpos' _ _ hq
    · have hnodup := hf.nodup
      rw [hlive] at hnodup
      show (live.toList.map _).Nodup
      rw [hlive']
      exact hnodup
    · intro l' hl'
      have hids := hf.id_lt
      rw [hlive] at hids
      rw [hlive'] at hl'
      rcases List.mem_cons.mp hl' with rfl | hl'
      · exact hids l (List.mem_cons_self ..)
      · exact hids l' (List.mem_cons_of_mem _ hl')
    · show Sized _ live.toList
      rw [hlive']
      exact ⟨⟨hpos, hle⟩, hsized.2⟩
  obtain ⟨p, hget, rfl⟩ := Book.get?_of_card hslot ho
  cases hperforms with
  | modified hmodified =>
    cases hmodified with
    | added hnone =>
      rw [hslot] at hnone
      cases hnone
    | rejected hslot' hq hother =>
      obtain rfl := Option.some.inj (hslot'.symm.trans hslot)
      obtain rfl := Option.some.inj (hq.symm.trans ho)
      exact absurd hside.symm hother
    | repriced hslot' hq _ _ hother =>
      obtain rfl := Option.some.inj (hslot'.symm.trans hslot)
      obtain rfl := Option.some.inj (hq.symm.trans ho)
      exact absurd hprice.symm hother
    | requeued hslot' hq _ _ _ halters =>
      obtain rfl := Option.some.inj (hslot'.symm.trans hslot)
      obtain rfl := Option.some.inj (hq.symm.trans ho)
      exact ⟨.modified rfl hget hside.symm hprice.symm (.inr rfl),
        hkept (halters.card_of ho) rfl rfl rfl hpos⟩
    | resized hslot' hq _ _ _ halters =>
      obtain rfl := Option.some.inj (hslot'.symm.trans hslot)
      obtain rfl := Option.some.inj (hq.symm.trans ho)
      exact ⟨.modified rfl hget hside.symm hprice.symm (.inl rfl),
        hkept (halters.card_of ho) rfl rfl rfl hpos⟩

/-- A trade at the best price takes something, and leaves a size to what it does not fill. -/
theorem Remembers.traded {price : Int32} {side : Side} (hf : f.Remembers b n) (h : b.WellFormed)
    (hroom : f.nextId.toNat + 1 < 2 ^ 64) (hseq : f.seq.toNat = n + 1)
    (hbest : b.bestPrice? side.opposite = some price) (hturn : f.seq.toNat % 10 = 8)
    (hperforms : b.Performs (.trade f.nextId price 15 side) result b') :
    ({ action := .trade, id := f.nextId, price, size := 15, side, time := f.time } : Message).Suits b
        result ∧
      ({ f with nextId := f.nextId + 1 } : Feed).Remembers b' (n + 1) := by
  obtain ⟨⟨level, hlevel⟩, hslots⟩ := h.of_bestPrice? hbest
  cases hperforms with
  | traded htraded =>
    have htaken := htraded.traded_pos h (by decide) hslots hf.solid
    -- What is left of an order is the order with another size.
    have hcame : ∀ {s o'}, b'.card s = some o' → ∃ o, b.card s = some o ∧
        o.id = o'.id ∧ o.side = o'.side ∧ o.price = o'.price := by
      intro s o' ho'
      cases ho : b.card s with
      | none =>
        rw [htraded.card_eq_none ho] at ho'
        cases ho'
      | some o =>
        have hfate := htraded.fate h ho
        rw [ho'] at hfate
        cases hfate with
        | kept => exact ⟨o, rfl, rfl, rfl, rfl⟩
    refine ⟨.traded rfl hlevel htaken, ?_,
      fun ho' => hf.solid.of_traded h htraded _ _ ho', hf.nodup, ?_, hf.sized.succ (by omega)⟩
    · intro s o' ho'
      obtain ⟨o, ho, hid, hside, hprice⟩ := hcame ho'
      obtain ⟨l, hl, hlid, hlside, hlprice⟩ := hf.recalled ho
      exact ⟨l, hl, hlid.trans hid, hlside.trans hside, hlprice.trans hprice⟩
    · intro l hl
      have hlt := UInt64.lt_iff_toNat_lt.mp (hf.id_lt l hl)
      rw [UInt64.lt_iff_toNat_lt, UInt64.toNat_add, UInt64.toNat_one, Nat.mod_eq_of_lt hroom]
      exact Nat.lt_succ_of_lt hlt

/-- A feed that has moved on to the message after the first `n` ones. -/
structure Ready (f : Feed) (b : Book) (n : Nat) : Prop where
  remembers : f.Remembers b n
  /-- The oldest order it remembers rests. -/
  rests : ∀ {l rest}, f.live.toList = l :: rest → b.contains l.id = true
  seq_eq : f.seq.toNat = n + 1

theorem Remembers.ready (hf : f.Remembers b n) (h : b.WellFormed) (hseq : f.seq.toNat = n)
    (hcount : n + 1 < 2 ^ 64) : (f.advance b).Ready b n where
  remembers := hf.advance h
  rests hlive := contains_of_head (hlive ▸ List.head?_cons)
  seq_eq := by
    show (f.seq + 1).toNat = n + 1
    rw [UInt64.toNat_add, hseq, UInt64.toNat_one, Nat.mod_eq_of_lt hcount]

/-- Every size that is sent is between 1 and 66. -/
theorem Ready.size_sent (hf : f.Ready b n) (hsends : f.Sends b m f') :
    0 < m.size ∧ m.size ≤ 66 := by
  have hcrest : ∀ {size : UInt32} {k : Nat}, size.toNat ≤ crest k → size ≤ 66 := by
    intro size k hle
    rw [UInt32.le_iff_toNat_le]
    unfold crest at hle
    simp only [UInt32.reduceToNat]
    split at hle <;> omega
  have hsized := hf.remembers.sized
  cases hsends with
  | added hpos hle => exact ⟨hpos, UInt32.le_trans hle (by decide)⟩
  | cancelled hlive =>
    rw [hlive] at hsized
    exact ⟨hsized.1.1, hcrest hsized.1.2⟩
  | modified hlive hturn =>
    rw [hlive] at hsized
    obtain ⟨hpos, hle⟩ := nextSize_le hf.seq_eq hturn hsized.1.2
    exact ⟨hpos, hcrest hle⟩
  | traded => exact ⟨show (0 : UInt32) < 15 by decide, show (15 : UInt32) ≤ 66 by decide⟩

/-- A message that is sent suits the book, and the feed keeps up with what becomes of the book. -/
theorem Ready.step (hf : f.Ready b n) (h : b.WellFormed) (hroom : f.nextId.toNat + 1 < 2 ^ 64)
    (hsends : f.Sends b m f') (hperforms : b.Performs m.operation result b') :
    m.Suits b result ∧ f'.Remembers b' (n + 1) := by
  cases hsends with
  | added hpos hle hfirst =>
    exact hf.remembers.added h hf.seq_eq hroom hpos hle hfirst hperforms
  | cancelled hlive => exact hf.remembers.cancelled h hlive (hf.rests hlive) hperforms
  | modified hlive hturn hlive' =>
    exact hf.remembers.modified h hlive (hf.rests hlive) hf.seq_eq hturn hlive' hperforms
  | traded hbest hturn => exact hf.remembers.traded h hroom hf.seq_eq hbest hturn hperforms

end Feed

end PriceTime
