import Mathlib.Data.List.Sort
import PriceTime.Book.Encoding
import PriceTime.Proofs.Book.Views
import PriceTime.Proofs.Run

/-!
# Reading an encoded book

The levels of an encoded book follow each other without separators, and they differ in length. Their
boundaries are still no secret: a level says how many orders it has, and in a consistent book that
is the number of orders that follow. A reader that goes by this number gets back who waits where, in
which order and with what size, and nothing else shows in the bytes.

* `Book.Listing`: who waits in a level.
* `Book.readBook`: reading an encoded book.
* `Book.Consistent.readBook_encode`: a consistent book is read back from its bytes.
* `Book.WellFormed.listing_eq_iff`: the listing of a book is a matter of its queues.
* `Session.run_encoding`: books have the same bytes exactly if they have the same listing.
-/

namespace PriceTime

namespace Book

/-- Who waits in a level: the ids and the sizes of its orders, oldest first. -/
structure Listing where
  side : Side
  price : Int32
  orders : List (UInt64 × UInt32)
deriving DecidableEq

/-- Who waits in a level of a side. -/
def listed (b : Book) (side : Side) (level : Level) : Listing where
  side
  price := level.price
  orders := (b.ordersOf level).map fun (_, order) => (order.id, order.size)

/-- Who waits in the levels of a book, bids before asks and best first. -/
def listing (b : Book) : List Listing :=
  [Side.bid, .ask].flatMap fun side => (b.levels side).map (b.listed side)

/-! ## Reading -/

/-- A number of `width` bytes, the least significant first, and the bytes behind it. -/
def readNat : (width : Nat) → List UInt8 → Option (Nat × List UInt8)
  | 0, bytes => some (0, bytes)
  | _ + 1, [] => none
  | width + 1, byte :: bytes => do
    let (n, rest) ← readNat width bytes
    return (byte.toNat + 256 * n, rest)

def readSide : List UInt8 → Option (Side × List UInt8)
  | 0 :: rest => some (.bid, rest)
  | 1 :: rest => some (.ask, rest)
  | _ => none

/-- As many orders as `count` says. -/
def readOrders : (count : Nat) → List UInt8 → Option (List (UInt64 × UInt32) × List UInt8)
  | 0, bytes => some ([], bytes)
  | count + 1, bytes => do
    let (id, bytes) ← readNat 8 bytes
    let (size, bytes) ← readNat 4 bytes
    let (orders, rest) ← readOrders count bytes
    return ((.ofNat id, .ofNat size) :: orders, rest)

/-- A level. Its volume is read over: it repeats what the sizes of the orders say. -/
def readListing (bytes : List UInt8) : Option (Listing × List UInt8) := do
  let (side, bytes) ← readSide bytes
  let (price, bytes) ← readNat 4 bytes
  let (_, bytes) ← readNat 8 bytes
  let (count, bytes) ← readNat 4 bytes
  let (orders, rest) ← readOrders count bytes
  return ({ side, price := (UInt32.ofNat price).toInt32, orders }, rest)

/-- Levels up to the end of the bytes, in at most as many turns. -/
def readListings : (turns : Nat) → List UInt8 → Option (List Listing)
  | _, [] => some []
  | 0, _ :: _ => none
  | turns + 1, byte :: bytes => do
    let (listing, rest) ← readListing (byte :: bytes)
    return listing :: (← readListings turns rest)

/-- Who waits in the levels of an encoded book. No level is without bytes, so there are as many
turns as it takes. -/
def readBook (bytes : List UInt8) : Option (List Listing) :=
  readListings bytes.length bytes

theorem readNat_littleEndian (width n : Nat) (rest : List UInt8) (hn : n < 256 ^ width) :
    readNat width (littleEndian width n ++ rest) = some (n, rest) := by
  induction width generalizing n with
  | zero =>
    have hzero : n = 0 := by omega
    rw [hzero]
    rfl
  | succ width ih =>
    have hsmall : n / 256 < 256 ^ width := by
      apply Nat.div_lt_of_lt_mul
      rwa [Nat.pow_succ, Nat.mul_comm] at hn
    have hbyte : n.toUInt8.toNat = n % 256 := rfl
    simp only [littleEndian, List.cons_append, readNat, ih _ hsmall, Option.bind_eq_bind,
      Option.bind_some, hbyte, Nat.mod_add_div]
    rfl

theorem readSide_tag (side : Side) (rest : List UInt8) :
    readSide (side.tag :: rest) = some (side, rest) := by
  cases side <;> rfl

/-! ## A listing as bytes -/

/-- The bytes of an order, as they follow from its id and its size. -/
def encodePair (order : UInt64 × UInt32) : List UInt8 :=
  littleEndian 8 order.1.toNat ++ littleEndian 4 order.2.toNat

/-- The bytes of a level, as they follow from who waits in it. -/
def Listing.encode (listing : Listing) : List UInt8 :=
  listing.side.tag :: littleEndian 4 listing.price.toUInt32.toNat ++
    littleEndian 8 (listing.orders.map fun order => order.2.toNat).sum ++
    littleEndian 4 listing.orders.length ++ listing.orders.flatMap encodePair

theorem readOrders_flatMap (orders : List (UInt64 × UInt32)) (rest : List UInt8) :
    readOrders orders.length (orders.flatMap encodePair ++ rest) = some (orders, rest) := by
  induction orders with
  | nil => rfl
  | cons order orders ih =>
    have hid := order.1.toNat_lt
    have hsize := order.2.toNat_lt
    simp only [List.length_cons, List.flatMap_cons, encodePair, List.append_assoc, readOrders]
    rw [readNat_littleEndian _ _ _ hid]
    simp only [Option.bind_eq_bind, Option.bind_some]
    rw [readNat_littleEndian _ _ _ hsize]
    simp [ih]

/-- The number of orders and the sum of their sizes fit into the bytes there are for them. -/
structure Listing.Fits (listing : Listing) : Prop where
  count : listing.orders.length < 2 ^ 32
  volume : (listing.orders.map fun order => order.2.toNat).sum < 2 ^ 64

/-- A level is read back, whatever bytes follow. -/
theorem readListing_encode {listing : Listing} (hfits : listing.Fits) (rest : List UInt8) :
    readListing (listing.encode ++ rest) = some (listing, rest) := by
  have hprice := listing.price.toUInt32.toNat_lt
  simp only [Listing.encode, List.cons_append, List.append_assoc, readListing, readSide_tag,
    Option.bind_eq_bind, Option.bind_some]
  rw [readNat_littleEndian _ _ _ hprice]
  simp only [Option.bind_some]
  rw [readNat_littleEndian _ _ _ hfits.volume]
  simp only [Option.bind_some]
  rw [readNat_littleEndian _ _ _ hfits.count]
  simp [readOrders_flatMap]

theorem readListings_flatMap {listings : List Listing} {turns : Nat}
    (hfits : ∀ listing ∈ listings, listing.Fits) (hturns : listings.length ≤ turns) :
    readListings turns (listings.flatMap Listing.encode) = some listings := by
  induction listings generalizing turns with
  | nil => cases turns <;> rfl
  | cons listing listings ih =>
    obtain ⟨turns, rfl⟩ : ∃ n, turns = n + 1 := ⟨turns - 1, by simp at hturns; omega⟩
    have hrest := ih (fun x hx => hfits x (List.mem_cons_of_mem _ hx)) (by simpa using hturns)
    have hfirst := readListing_encode (hfits listing List.mem_cons_self)
      (listings.flatMap Listing.encode)
    -- The bytes of a level begin with its side, so the reader takes a turn.
    rw [List.flatMap_cons]
    simp only [Listing.encode, List.cons_append] at hfirst ⊢
    simp only [readListings, hfirst, Option.bind_eq_bind, Option.bind_some]
    change (readListings turns (listings.flatMap Listing.encode)).bind _ = _
    rw [hrest]
    rfl

theorem length_le_length_flatMap (listings : List Listing) :
    listings.length ≤ (listings.flatMap Listing.encode).length := by
  induction listings with
  | nil => simp
  | cons listing listings ih =>
    have hpos : 0 < listing.encode.length := by simp [Listing.encode]
    simp only [List.flatMap_cons, List.length_append, List.length_cons]
    omega

/-- A list of levels is read back from its bytes. -/
theorem readBook_flatMap {listings : List Listing} (hfits : ∀ listing ∈ listings, listing.Fits) :
    readBook (listings.flatMap Listing.encode) = some listings :=
  readListings_flatMap hfits (length_le_length_flatMap listings)

/-! ## The bytes of a consistent book -/

namespace Consistent

variable {b : Book} {side : Side} {level : Level} (h : b.Consistent)

include h

theorem volume_of_mem (hlevel : level ∈ b.levels side) : level.volume.toNat =
    ((b.listed side level).orders.map fun order => order.2.toNat).sum := by
  obtain ⟨key, -, hkey⟩ := List.mem_filterMap.mp hlevel
  rw [h.volume_eq hkey, listed, List.map_map]
  rfl

theorem count_of_mem (hlevel : level ∈ b.levels side) :
    level.count.toNat = (b.listed side level).orders.length := by
  obtain ⟨key, -, hkey⟩ := List.mem_filterMap.mp hlevel
  rw [h.count_eq hkey, listed, List.length_map]

theorem encodeLevel_eq (hlevel : level ∈ b.levels side) :
    b.encodeLevel side level = (b.listed side level).encode := by
  rw [encodeLevel, encodeHeading, h.volume_of_mem hlevel, h.count_of_mem hlevel, Listing.encode]
  simp only [listed, List.flatMap_map]
  rfl

/-- The bytes of a book follow from who waits in its levels. -/
theorem encode_eq : b.encode = b.listing.flatMap Listing.encode := by
  have hside : ∀ side, (b.levels side).flatMap (b.encodeLevel side) =
      ((b.levels side).map (b.listed side)).flatMap Listing.encode := by
    intro side
    rw [List.flatMap_map]
    apply List.flatMap_congr
    intro level hlevel
    exact h.encodeLevel_eq hlevel
  rw [encode, listing, List.flatMap_assoc]
  apply List.flatMap_congr
  intro side _
  exact hside side

theorem fits_listing : ∀ listing ∈ b.listing, listing.Fits := by
  intro listing hlisting
  obtain ⟨side, -, hside⟩ := List.mem_flatMap.mp hlisting
  obtain ⟨level, hlevel, rfl⟩ := List.mem_map.mp hside
  have hcount := level.count.toNat_lt
  have hvolume := level.volume.toNat_lt
  rw [h.count_of_mem hlevel] at hcount
  rw [h.volume_of_mem hlevel] at hvolume
  exact ⟨hcount, hvolume⟩

/-- A consistent book is read back from its bytes. -/
theorem readBook_encode : readBook b.encode = some b.listing := by
  rw [h.encode_eq]
  exact readBook_flatMap h.fits_listing

/-- Equal bytes mean equal listings, and the other way round. -/
theorem encode_inj {b' : Book} (h' : b'.Consistent) :
    b.encode = b'.encode ↔ b.listing = b'.listing := by
  constructor
  · intro heq
    have hread := h.readBook_encode
    rw [heq, h'.readBook_encode] at hread
    exact (Option.some.inj hread).symm
  · intro heq
    rw [h.encode_eq, h'.encode_eq, heq]

end Consistent

end Book

/-! ## Listings and queues -/

namespace PlainBook

/-- The ids and the sizes of the orders at a price of a side, oldest first. -/
def line (b : PlainBook) (side : Side) (price : Int32) : List (UInt64 × UInt32) :=
  (b.queue side price).map fun entry => (entry.id, entry.size)

/-- There is only one way to put the prices of a side in order. -/
theorem Ladder.unique {b b' : PlainBook} {side : Side} {prices prices' : List Int32}
    (h : b.Ladder side prices) (h' : b'.Ladder side prices')
    (hqueue : ∀ price, b.queue side price = [] ↔ b'.queue side price = []) : prices = prices' := by
  have hirrefl : Std.Irrefl fun p p' : Int32 => side.rank p < side.rank p' :=
    ⟨fun p => lt_irrefl (side.rank p)⟩
  have hantisymm : Std.Antisymm fun p p' : Int32 => side.rank p < side.rank p' :=
    ⟨fun _ _ hlt hgt => absurd hgt (lt_asymm hlt)⟩
  apply h.bestFirst.eq_of_mem_iff h'.bestFirst
  intro price
  rw [h.mem_iff, h'.mem_iff]
  exact not_congr (hqueue price)

end PlainBook

namespace Book

variable {b b' : Book} {side : Side} {price : Int32}

/-- The listing of a side, price by price. -/
theorem WellFormed.map_listed (h : b.WellFormed) (side : Side) :
    (b.levels side).map (b.listed side) = ((b.half side).ladder.toList.map Prod.fst).map
      fun price => { side, price, orders := b.plain.line side price } := by
  apply h.map_levels
  intro price l hlevel
  simp only [listed, h.price_of_level? hlevel, PlainBook.line, plain, hlevel, List.map_map]
  rfl

theorem WellFormed.mem_listing (h : b.WellFormed) {listing : Listing} :
    listing ∈ b.listing ↔ b.plain.queue listing.side listing.price ≠ [] ∧
      listing.orders = b.plain.line listing.side listing.price := by
  have hside : ∀ side, listing ∈ (b.levels side).map (b.listed side) ↔ listing.side = side ∧
      b.plain.queue side listing.price ≠ [] ∧ listing.orders = b.plain.line side listing.price := by
    intro side
    rw [h.map_listed, List.mem_map]
    constructor
    · rintro ⟨price, hprice, rfl⟩
      exact ⟨rfl, ((h.ladder_plain side).mem_iff price).mp hprice, rfl⟩
    · rintro ⟨rfl, hqueue, horders⟩
      exact ⟨listing.price, ((h.ladder_plain _).mem_iff _).mpr hqueue, by rw [← horders]⟩
  unfold Book.listing
  simp only [List.mem_flatMap, hside]
  constructor
  · rintro ⟨side, -, rfl, hrest⟩
    exact hrest
  · intro hrest
    exact ⟨listing.side, by cases listing.side <;> simp, rfl, hrest⟩

theorem line_eq_nil_iff : b.plain.line side price = [] ↔ b.plain.queue side price = [] := by
  simp [PlainBook.line]

/-- Two books have the same listing if the same orders wait in the same order at each price, however
the books came about. -/
theorem WellFormed.listing_eq_iff (h : b.WellFormed) (h' : b'.WellFormed) :
    b.listing = b'.listing ↔ ∀ side price, b.plain.line side price = b'.plain.line side price := by
  constructor
  · intro heq side price
    -- A price where nobody waits in one book is not listed, so nobody waits there in the other.
    have hline : ∀ {c c' : Book}, c.WellFormed → c'.WellFormed → c.listing = c'.listing →
        c.plain.queue side price ≠ [] → c.plain.line side price = c'.plain.line side price := by
      intro c c' hc hc' heq hne
      have hmem : { side, price, orders := c.plain.line side price } ∈ c.listing :=
        hc.mem_listing.mpr ⟨hne, rfl⟩
      rw [heq] at hmem
      exact (hc'.mem_listing.mp hmem).2
    by_cases hnil : b.plain.queue side price = []
    · by_cases hnil' : b'.plain.queue side price = []
      · rw [line_eq_nil_iff.mpr hnil, line_eq_nil_iff.mpr hnil']
      · exact (hline h' h heq.symm hnil').symm
    · exact hline h h' heq hnil
  · intro hline
    unfold listing
    apply List.flatMap_congr
    intro side _
    have hprices := (h.ladder_plain side).unique (h'.ladder_plain side) fun price => by
      rw [← line_eq_nil_iff, hline, line_eq_nil_iff]
    rw [h.map_listed, h'.map_listed, hprices]
    simp only [hline]

end Book

namespace Session

/-- The bytes behind the root of a book show who waits where, and nothing else. For any two books
that runs lead to, whatever their settings and histories, with fewer than `2 ^ 32` orders each: they
have the same bytes exactly if they list the same levels with the same orders, which is so exactly
if the same orders wait in the same order at each price; then they have the same root, which is the
digest of the bytes; and a reader gets each listing back. -/
theorem run_encoding {config config' : BookConfig} {calls calls' : List Call} {s s' : Session}
    {log log' : List (Answer × List Event)}
    (hrun : (ofConfig config).run calls = .ok (s, log))
    (hrun' : (ofConfig config').run calls' = .ok (s', log'))
    (hroom : s.book.index.size < 2 ^ 32) (hroom' : s'.book.index.size < 2 ^ 32) :
    (s.book.encode = s'.book.encode ↔ s.book.listing = s'.book.listing) ∧
    (s.book.listing = s'.book.listing ↔
      ∀ side price, s.book.plain.line side price = s'.book.plain.line side price) ∧
    (s.book.listing = s'.book.listing → s.book.root = s'.book.root) ∧
    s.book.root = Sha256.digest ⟨s.book.encode.toArray⟩ ∧
    s'.book.root = Sha256.digest ⟨s'.book.encode.toArray⟩ ∧
    Book.readBook s.book.encode = some s.book.listing ∧
    Book.readBook s'.book.encode = some s'.book.listing := by
  have hwell : s.book.WellFormed := (run_wellFormed Book.WellFormed.empty calls).sound _ hrun
  have hwell' : s'.book.WellFormed := (run_wellFormed Book.WellFormed.empty calls').sound _ hrun'
  have hbook : s.book.Consistent := hwell.consistent (hwell.size_index ▸ hroom)
  have hbook' : s'.book.Consistent := hwell'.consistent (hwell'.size_index ▸ hroom')
  refine ⟨hbook.encode_inj hbook', hwell.listing_eq_iff hwell', ?_, rfl, rfl,
    hbook.readBook_encode, hbook'.readBook_encode⟩
  intro heq
  rw [Book.root, Book.root, (hbook.encode_inj hbook').mpr heq]

/-- Orders that came and went, other prices before, times and slots leave no mark. -/
theorem run_encoding_histories :
    ∃ s log s' log', (ofConfig {}).run [.add 1 100 5 .bid 0, .add 2 101 7 .ask 1,
        .add 3 100 9 .bid 2, .add 4 100 6 .bid 3, .remove 1] = .ok (s, log) ∧
      (ofConfig { snapshotDepth := 3 }).run [.add 3 98 4 .bid 7, .modify 3 100 9 .bid 8,
        .add 4 100 6 .bid 9, .process ⟨.add, 2, 101, 7, .ask, 10⟩] = .ok (s', log') ∧
      s.book.root = s'.book.root ∧ Book.readBook s.book.encode =
        some [⟨.bid, 100, [(3, 9), (4, 6)]⟩, ⟨.ask, 101, [(2, 7)]⟩] := by
  have hroom := roomy_of_length_lt {} [.add 1 100 5 .bid 0, .add 2 101 7 .ask 1,
    .add 3 100 9 .bid 2, .add 4 100 6 .bid 3, .remove 1] (by decide)
  have hroom' := roomy_of_length_lt { snapshotDepth := 3 } [.add 3 98 4 .bid 7,
    .modify 3 100 9 .bid 8, .add 4 100 6 .bid 9, .process ⟨.add, 2, 101, 7, .ask, 10⟩] (by decide)
  obtain ⟨⟨s, log⟩, hrun, -⟩ := (run_wellFormed Book.WellFormed.empty _).exists_ok hroom
  obtain ⟨⟨s', log'⟩, hrun', -⟩ := (run_wellFormed Book.WellFormed.empty _).exists_ok hroom'
  have hlisting : ((ofConfig {}).run [.add 1 100 5 .bid 0, .add 2 101 7 .ask 1,
      .add 3 100 9 .bid 2, .add 4 100 6 .bid 3, .remove 1]).map (fun r => r.1.book.listing) =
        .ok [⟨.bid, 100, [(3, 9), (4, 6)]⟩, ⟨.ask, 101, [(2, 7)]⟩] := by decide +kernel
  have hlisting' : ((ofConfig { snapshotDepth := 3 }).run [.add 3 98 4 .bid 7,
      .modify 3 100 9 .bid 8, .add 4 100 6 .bid 9, .process ⟨.add, 2, 101, 7, .ask, 10⟩]).map
        (fun r => r.1.book.listing) =
        .ok [⟨.bid, 100, [(3, 9), (4, 6)]⟩, ⟨.ask, 101, [(2, 7)]⟩] := by decide +kernel
  rw [hrun] at hlisting
  rw [hrun'] at hlisting'
  have hlist := Except.ok.inj hlisting
  have hlist' := Except.ok.inj hlisting'
  obtain ⟨-, -, hroot, -, -, hread, -⟩ :=
    run_encoding hrun hrun' (hroom.last hrun) (hroom'.last hrun')
  exact ⟨s, log, s', log', hrun, hrun', hroot (hlist.trans hlist'.symm),
    hread.trans (congrArg some hlist)⟩

end Session

end PriceTime
