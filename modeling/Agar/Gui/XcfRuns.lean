import Agar.Gui.SurfaceLayout

namespace Agar.Gui.Xcf

open Agar.Lib
open Agar.Core

/-!
# Tiles that are encoded in runs

`ReadTileRLE` decodes a tile channel by channel.  Each run says how many bytes it
gives, and neither the bytes that are left nor the room for them is checked, so
that a tile is decoded safely exactly if it consists of runs that fill each of
its channels.
-/

/-! ## The decoder -/

/-- `*d = val` -/
def store (data : List UInt8) (d : Nat) (val : UInt8) : Except Stop (List UInt8) :=
  if d < data.length then .ok (data.set d val) else .error .undefined

/-- Where the decoder is: what is left of the bytes, and where it writes -/
structure Decoding where
  tile : List UInt8
  d : Nat
  data : List UInt8

/-- `while (length-- > 0)`: bytes are copied. -/
def copyRun (Bpp : Nat) : Nat → Decoding → Except Stop Decoding
  | 0, s => .ok s
  | length + 1, s =>
    match s.tile with
    | [] => .error .undefined
    | val :: tile => do
        let data ← store s.data s.d val
        copyRun Bpp length ⟨tile, s.d + Bpp, data⟩

/-- `for (j = 0; j < length; j++)`: a byte is repeated. -/
def fillRun (Bpp : Nat) (val : UInt8) : Nat → Decoding → Except Stop Decoding
  | 0, s => .ok s
  | length + 1, s => do
      let data ← store s.data s.d val
      fillRun Bpp val length { s with d := s.d + Bpp, data }

/-- `length = (*tile << 8) + tile[1]`, if the length is 128 -/
def longLength (length : Nat) (tile : List UInt8) : Except Stop (Nat × List UInt8) :=
  if length = 128 then
    match tile with
    | high :: low :: tile => .ok (high.toNat * 256 + low.toNat, tile)
    | _ => .error .undefined
  else .ok (length, tile)

/-- A run, and its length -/
def decodeRun (Bpp : Nat) (s : Decoding) : Except Stop (Nat × Decoding) :=
  match s.tile with
  | [] => .error .undefined
  | val :: tile =>
    if 128 ≤ val.toNat then do
      let (length, tile) ← longLength (255 - (val.toNat - 1)) tile
      return (length, ← copyRun Bpp length { s with tile })
    else do
      let (length, tile) ← longLength (val.toNat + 1) tile
      match tile with
      | [] => .error .undefined
      | val :: tile => return (length, ← fillRun Bpp val length { s with tile })

/-- `while (size > 0)` -/
def decodeRuns (Bpp : Nat) : Nat → Int → Decoding → Except Stop Decoding
  | 0, size, s => if size > 0 then .error .outOfFuel else .ok s
  | fuel + 1, size, s =>
    if size > 0 then do
      let (length, s) ← decodeRun Bpp s
      decodeRuns Bpp fuel (size - length) s
    else .ok s

/-- A channel: what is left of the bytes, and the tile -/
def decodeChannel (Bpp : Nat) (size : Int) (i : Nat)
    (state : List UInt8 × List UInt8) : Except Stop (List UInt8 × List UInt8) := do
  let s ← decodeRuns Bpp (state.1.length + 1) size ⟨state.1, i, state.2⟩
  return (s.tile, s.data)

/--
`ReadTileRLE`, from the bytes that were read.  It gives no tile if there is no
memory for it.
-/
def readTileRLE (fresh : Fresh) (bytes : List UInt8)
    (Bpp x y : Nat) : Except Stop (Option (List UInt8)) := do
  let size ← intResult (x * y)
  let room ← intResult (size * Bpp)
  match fresh with
  | none => return none
  | some fresh => do
      let (_, data) ← forLoop (decodeChannel Bpp size) Bpp 0 (bytes, freshBytes fresh room.toNat)
      return some data

/-! ## Runs -/

/-- The two bytes of a length, the high one first -/
def lengthBytes (length : Nat) : List UInt8 := [.ofNat (length / 256), .ofNat (length % 256)]

/-- A run, literal or repeated, short or long, stands for values. -/
inductive RunEncodes : List UInt8 → List UInt8 → Prop where
  | literal
      {values : List UInt8}
      (nonempty : 1 ≤ values.length)
      (short : values.length ≤ 127) :
      RunEncodes (.ofNat (256 - values.length) :: values) values
  | longLiteral
      {values : List UInt8}
      (short : values.length ≤ 65535) :
      RunEncodes (128 :: (lengthBytes values.length ++ values)) values
  | repeated
      {count : Nat}
      {val : UInt8}
      (nonempty : 1 ≤ count)
      (short : count ≤ 127) :
      RunEncodes [.ofNat (count - 1), val] (.replicate count val)
  | longRepeated
      {count : Nat}
      {val : UInt8}
      (short : count ≤ 65535) :
      RunEncodes (127 :: (lengthBytes count ++ [val])) (.replicate count val)

/-- Runs stand for the values of a channel, and end when it has as many as needed. -/
inductive ChannelEncodes : Nat → List UInt8 → List UInt8 → Prop where
  | done : ChannelEncodes 0 [] []
  | run
      {size : Nat}
      {bytes values rest valuesRest : List UInt8}
      (wanted : 0 < size)
      (fits : values.length ≤ size)
      (encodes : RunEncodes bytes values)
      (more : ChannelEncodes (size - values.length) rest valuesRest) :
      ChannelEncodes size (bytes ++ rest) (values ++ valuesRest)

/-- Bytes stand for channels, one after the other. -/
inductive ChannelsEncode (size : Nat) : List UInt8 → List (List UInt8) → Prop where
  | done : ChannelsEncode size [] []
  | channel
      {bytes values rest : List UInt8}
      {channels : List (List UInt8)}
      (encodes : ChannelEncodes size bytes values)
      (more : ChannelsEncode size rest channels) :
      ChannelsEncode size (bytes ++ rest) (values :: channels)

/-- The values of a channel of a tile -/
def channelOf (data : List UInt8) (Bpp size i : Nat) : List UInt8 :=
  (List.range size).map fun k => data.getD (i + k * Bpp) 0

/-- The channels of a tile -/
def channelsOf (data : List UInt8) (Bpp size : Nat) : List (List UInt8) :=
  (List.range Bpp).map (channelOf data Bpp size)

/-! ## Values that are written -/

section Writing

variable {Bpp : Nat}

/-- Values are written one after the other. -/
def writeRun (Bpp : Nat) : List UInt8 → Nat → List UInt8 → Except Stop (List UInt8)
  | [], _, data => .ok data
  | val :: values, d, data => do
      let data ← store data d val
      writeRun Bpp values (d + Bpp) data

/-- What values are written over -/
def written (Bpp : Nat) : List UInt8 → Nat → List UInt8 → List UInt8
  | [], _, data => data
  | val :: values, d, data => written Bpp values (d + Bpp) (data.set d val)

variable {values data : List UInt8} {d : Nat}

@[simp] theorem length_written : (written Bpp values d data).length = data.length := by
  induction values generalizing d data with
  | nil => rfl
  | cons val values ih => rw [written, ih, List.length_set]

theorem written_append (more : List UInt8) : written Bpp (values ++ more) d data =
      written Bpp more (d + values.length * Bpp) (written Bpp values d data) := by
  induction values generalizing d data with
  | nil =>
    rw [List.nil_append, List.length_nil, Nat.zero_mul]
    rfl
  | cons val values ih =>
    rw [List.cons_append, written, written, ih, List.length_cons]
    congr 1
    ring

theorem writeRun_eq_ok {result : List UInt8} : writeRun Bpp values d data = .ok result ↔
      (∀ k < values.length, d + k * Bpp < data.length) ∧ result = written Bpp values d data := by
  induction values generalizing d data with
  | nil =>
    rw [writeRun, Except.ok.injEq, eq_comm]
    simp [written]
  | cons val values ih =>
    rw [writeRun, bind_eq_ok]
    constructor
    · rintro ⟨next, stored, rest⟩
      unfold store at stored
      split at stored
      case isTrue inside =>
        cases stored
        obtain ⟨room, isResult⟩ := ih.mp rest
        refine ⟨fun k below => ?_, isResult⟩
        cases k with
        | zero => rwa [Nat.zero_mul, Nat.add_zero]
        | succ k =>
          have roomHere := room k (by rw [List.length_cons] at below; omega)
          rw [List.length_set] at roomHere
          rw [Nat.add_mul, Nat.one_mul]
          omega
      case isFalse => cases stored
    · rintro ⟨room, rfl⟩
      have inside := room 0 (by rw [List.length_cons]; omega)
      rw [Nat.zero_mul, Nat.add_zero] at inside
      refine ⟨data.set d val, if_pos inside, ih.mpr ⟨fun k below => ?_, rfl⟩⟩
      have roomHere := room (k + 1) (by rw [List.length_cons]; omega)
      rw [Nat.add_mul, Nat.one_mul] at roomHere
      rw [List.length_set]
      omega

theorem getElem?_written_ne {index : Nat} (beside : ∀ k < values.length, index ≠ d + k * Bpp) :
    (written Bpp values d data)[index]? = data[index]? := by
  induction values generalizing d data with
  | nil => rfl
  | cons val values ih =>
    have first := beside 0 (by rw [List.length_cons]; omega)
    rw [Nat.zero_mul, Nat.add_zero] at first
    rw [written, ih, List.getElem?_set_ne first.symm]
    intro k below same
    refine beside (k + 1) (by rw [List.length_cons]; omega) ?_
    rw [same, Nat.add_mul, Nat.one_mul]
    omega

theorem getElem?_written (positive : 0 < Bpp) {k : Nat} (below : k < values.length)
    (inside : d + k * Bpp < data.length) :
    (written Bpp values d data)[d + k * Bpp]? = values[k]? := by
  induction values generalizing d data k with
  | nil => cases below
  | cons val values ih =>
    cases k with
    | zero =>
      rw [Nat.zero_mul, Nat.add_zero] at inside ⊢
      have behind : ∀ k < values.length, d ≠ d + Bpp + k * Bpp := by
        intro k _
        omega
      rw [written, getElem?_written_ne behind, List.getElem?_set_self inside]
      rfl
    | succ k =>
      have next : d + (k + 1) * Bpp = d + Bpp + k * Bpp := by ring
      rw [List.length_cons] at below
      rw [next] at inside ⊢
      rw [written, ih (by omega) (by rw [List.length_set]; exact inside), List.getElem?_cons_succ]

end Writing

/-! ## Runs that are decoded -/

section Decoding

variable {Bpp d : Nat} {tile data : List UInt8} {result : Decoding}

variable {length : Nat}

theorem copyRun_eq_ok : copyRun Bpp length ⟨tile, d, data⟩ = .ok result ↔ ∃ values rest new,
        tile = values ++ rest ∧ values.length = length ∧ writeRun Bpp values d data = .ok new ∧
              result = ⟨rest, d + length * Bpp, new⟩ := by
  induction length generalizing tile d data with
  | zero =>
    constructor
    · rintro ⟨⟩
      exact ⟨[], tile, data, rfl, rfl, rfl, by rw [Nat.zero_mul, Nat.add_zero]⟩
    · rintro ⟨values, rest, new, rfl, isEmpty, wrote, rfl⟩
      rw [List.length_eq_zero_iff] at isEmpty
      subst isEmpty
      cases wrote
      rw [Nat.zero_mul, Nat.add_zero]
      rfl
  | succ length ih =>
    have next : d + (length + 1) * Bpp = d + Bpp + length * Bpp := by ring
    cases tile with
    | nil =>
      constructor
      · rintro ⟨⟩
      · rintro ⟨values, rest, new, isAppend, sized, _⟩
        rw [eq_comm, List.append_eq_nil_iff] at isAppend
        rw [isAppend.1] at sized
        cases sized
    | cons val tile =>
      rw [copyRun]
      simp only [bind_eq_ok]
      constructor
      · rintro ⟨stored, stores, rest⟩
        obtain ⟨values, left, new, rfl, sized, wrote, rfl⟩ := ih.mp rest
        refine ⟨val :: values, left, new, rfl, by rw [List.length_cons, sized], ?_, by rw [next]⟩
        rw [writeRun, stores, ok_bind, wrote]
      · rintro ⟨values, left, new, isAppend, sized, wrote, rfl⟩
        cases values with
        | nil => cases sized
        | cons first values =>
          rw [List.cons_append, List.cons.injEq] at isAppend
          obtain ⟨rfl, rfl⟩ := isAppend
          rw [writeRun, bind_eq_ok] at wrote
          obtain ⟨stored, stores, wrote⟩ := wrote
          refine ⟨stored, stores, ih.mpr ⟨values, left, new, rfl, Nat.succ.inj sized, wrote, ?_⟩⟩
          rw [next]

theorem fillRun_eq_ok {val : UInt8} : fillRun Bpp val length ⟨tile, d, data⟩ = .ok result ↔ ∃ new,
        writeRun Bpp (.replicate length val) d data = .ok new ∧
          result = ⟨tile, d + length * Bpp, new⟩ := by
  induction length generalizing d data with
  | zero =>
    rw [Nat.zero_mul, Nat.add_zero]
    constructor
    · rintro ⟨⟩
      exact ⟨data, rfl, rfl⟩
    · rintro ⟨new, wrote, rfl⟩
      cases wrote
      rfl
  | succ length ih =>
    have next : d + (length + 1) * Bpp = d + Bpp + length * Bpp := by ring
    rw [fillRun, bind_eq_ok, next]
    constructor
    · rintro ⟨stored, stores, rest⟩
      obtain ⟨new, wrote, rfl⟩ := ih.mp rest
      exact ⟨new, by rw [List.replicate_succ, writeRun, stores, ok_bind, wrote], rfl⟩
    · rintro ⟨new, wrote, rfl⟩
      rw [List.replicate_succ, writeRun, bind_eq_ok] at wrote
      obtain ⟨stored, stores, wrote⟩ := wrote
      exact ⟨stored, stores, ih.mpr ⟨new, wrote, rfl⟩⟩

theorem longLength_of_ne (short : length ≠ 128) : longLength length tile = .ok (length, tile) :=
  if_neg short

theorem longLength_eq_ok {rest : List UInt8} : longLength 128 tile = .ok (length, rest) ↔
      length ≤ 65535 ∧ tile = lengthBytes length ++ rest := by
  have values (high low : UInt8) : lengthBytes (high.toNat * 256 + low.toNat) = [high, low] := by
    have small := low.toNat_lt
    have quotient : (high.toNat * 256 + low.toNat) / 256 = high.toNat := by omega
    have remainder : (high.toNat * 256 + low.toNat) % 256 = low.toNat := by omega
    rw [lengthBytes, quotient, remainder, UInt8.ofNat_toNat, UInt8.ofNat_toNat]
  constructor
  · intro read
    unfold longLength at read
    rw [if_pos rfl] at read
    split at read
    case h_1 high low tile' =>
      cases read
      have smallHigh := high.toNat_lt
      have smallLow := low.toNat_lt
      refine ⟨by omega, ?_⟩
      rw [values]
      rfl
    case h_2 => cases read
  · rintro ⟨short, rfl⟩
    have high : (UInt8.ofNat (length / 256)).toNat = length / 256 := by
      rw [UInt8.toNat_ofNat']
      omega
    have low : (UInt8.ofNat (length % 256)).toNat = length % 256 := by
      rw [UInt8.toNat_ofNat']
      omega
    unfold longLength lengthBytes
    simp only [if_true, List.cons_append, List.nil_append, high, low, Nat.div_add_mod']

/-- What a run needs: bytes that stand for values, and room for them -/
def RunDecodes (Bpp : Nat) (s : Decoding) (length : Nat) (result : Decoding) : Prop :=
  ∃ bytes values rest new, s.tile = bytes ++ rest ∧ RunEncodes bytes values ∧
        length = values.length ∧ writeRun Bpp values s.d s.data = .ok new ∧
            result = ⟨rest, s.d + values.length * Bpp, new⟩

theorem runDecodes_of_decodeRun (decoded : decodeRun Bpp ⟨tile, d, data⟩ = .ok (length, result)) :
    RunDecodes Bpp ⟨tile, d, data⟩ length result := by
  unfold decodeRun at decoded
  cases tile with
  | nil => cases decoded
  | cons val tile =>
    simp only at decoded
    have byte := val.toNat_lt
    have isVal : UInt8.ofNat val.toNat = val := UInt8.ofNat_toNat
    split at decoded
    case isTrue literal =>
      simp only [bind_eq_ok] at decoded
      obtain ⟨⟨count, left⟩, hasLength, s, copied, isResult⟩ := decoded
      cases isResult
      obtain ⟨values, rest, new, rfl, sized, wrote, rfl⟩ := copyRun_eq_ok.mp copied
      by_cases long : 255 - (val.toNat - 1) = 128
      · have marker : val = 128 := by
          rw [← isVal, show val.toNat = 128 by omega]
          rfl
        rw [long, longLength_eq_ok] at hasLength
        obtain ⟨short, rfl⟩ := hasLength
        subst sized
        refine ⟨_, values, rest, new, ?_, .longLiteral short, rfl, wrote, rfl⟩
        rw [marker]
        simp only [List.cons_append, List.append_assoc]
      · rw [longLength_of_ne long] at hasLength
        cases hasLength
        have marker : val = .ofNat (256 - values.length) := by
          rw [← isVal]
          congr 1
          omega
        refine ⟨_, values, rest, new, ?_, .literal (by omega) (by omega), sized.symm, wrote, ?_⟩
        · simp only [List.cons_append, ← marker]
        · rw [sized]
    case isFalse repeated =>
      simp only [bind_eq_ok] at decoded
      obtain ⟨⟨count, left⟩, hasLength, rest⟩ := decoded
      cases left with
      | nil => cases rest
      | cons val' left =>
        simp only [bind_eq_ok] at rest
        obtain ⟨s, filled, isResult⟩ := rest
        cases isResult
        obtain ⟨new, wrote, rfl⟩ := fillRun_eq_ok.mp filled
        by_cases long : val.toNat + 1 = 128
        · have marker : val = 127 := by
            rw [← isVal, show val.toNat = 127 by omega]
            rfl
          rw [long, longLength_eq_ok] at hasLength
          obtain ⟨short, rfl⟩ := hasLength
          refine ⟨_, _, left, new, ?_, @RunEncodes.longRepeated _ val' short,
            by rw [List.length_replicate], wrote,
            by rw [List.length_replicate]⟩
          rw [marker]
          simp only [List.cons_append, List.append_assoc, List.nil_append]
        · rw [longLength_of_ne long] at hasLength
          cases hasLength
          have marker : val = .ofNat (val.toNat + 1 - 1) := by rw [Nat.add_sub_cancel, isVal]
          refine ⟨_, _, left, new, ?_, @RunEncodes.repeated (val.toNat + 1) val' (by omega)
              (by omega),
            by rw [List.length_replicate], wrote,
            by rw [List.length_replicate]⟩
          rw [← marker]
          rfl

theorem decodeRun_of_runDecodes (decodes : RunDecodes Bpp ⟨tile, d, data⟩ length result) :
    decodeRun Bpp ⟨tile, d, data⟩ = .ok (length, result) := by
  obtain ⟨bytes, values, rest, new, isTile, encodes, rfl, wrote, rfl⟩ := decodes
  simp only at isTile wrote
  subst isTile
  have copied (tile : List UInt8) : copyRun Bpp values.length ⟨values ++ tile, d, data⟩ =
        .ok ⟨tile, d + values.length * Bpp, new⟩ :=
    copyRun_eq_ok.mpr ⟨values, tile, new, rfl, rfl, wrote, rfl⟩
  cases encodes with
  | literal nonempty short =>
    have marker : (UInt8.ofNat (256 - values.length)).toNat = 256 - values.length := by
      rw [UInt8.toNat_ofNat']
      omega
    have length : 255 - (256 - values.length - 1) = values.length := by omega
    unfold decodeRun
    simp only [List.cons_append, marker]
    rw [if_pos (by omega), length, longLength_of_ne (by omega)]
    simp only [ok_bind, copied]
    rfl
  | longLiteral short =>
    have read : longLength 128 (lengthBytes values.length ++ (values ++ rest)) =
          .ok (values.length, values ++ rest) :=
      longLength_eq_ok.mpr ⟨short, rfl⟩
    unfold decodeRun
    simp only [List.cons_append, List.append_assoc]
    rw [if_pos (by decide), show 255 - ((128 : UInt8).toNat - 1) = 128 from rfl, read]
    simp only [ok_bind, copied]
    rfl
  | @repeated count val nonempty short =>
    have filled : fillRun Bpp val count ⟨rest, d, data⟩ = .ok ⟨rest, d + count * Bpp, new⟩ :=
      fillRun_eq_ok.mpr ⟨new, wrote, rfl⟩
    have marker : (UInt8.ofNat (count - 1)).toNat = count - 1 := by
      rw [UInt8.toNat_ofNat']
      omega
    unfold decodeRun
    simp only [List.cons_append, List.nil_append, marker]
    rw [if_neg (by omega), Nat.sub_add_cancel nonempty,
      longLength_of_ne (by omega), List.length_replicate]
    simp only [ok_bind, filled]
    rfl
  | @longRepeated count val short =>
    have filled : fillRun Bpp val count ⟨rest, d, data⟩ = .ok ⟨rest, d + count * Bpp, new⟩ :=
      fillRun_eq_ok.mpr ⟨new, wrote, rfl⟩
    have read : longLength 128 (lengthBytes count ++ (val :: rest)) = .ok (count, val :: rest) :=
      longLength_eq_ok.mpr ⟨short, rfl⟩
    unfold decodeRun
    simp only [List.cons_append, List.append_assoc, List.nil_append]
    rw [if_neg (by decide), show (127 : UInt8).toNat + 1 = 128 from rfl, read,
      List.length_replicate]
    simp only [ok_bind, filled]
    rfl

theorem decodeRun_eq_ok : decodeRun Bpp ⟨tile, d, data⟩ = .ok (length, result) ↔
      RunDecodes Bpp ⟨tile, d, data⟩ length result :=
  ⟨runDecodes_of_decodeRun, decodeRun_of_runDecodes⟩

theorem RunEncodes.length_pos {bytes values : List UInt8} (encodes : RunEncodes bytes values) :
    0 < bytes.length := by
  cases encodes <;> simp

end Decoding

/-! ## Channels that are decoded -/

section Channels

variable {Bpp n i k : Nat} {tile data : List UInt8}

theorem room_iff {length : Nat} (column : i < Bpp) (started : k ≤ n) :
    (∀ m < length, i + k * Bpp + m * Bpp < n * Bpp) ↔ k + length ≤ n := by
  constructor
  · intro room
    by_contra more
    have last := room (n - k) (by omega)
    rw [Nat.add_assoc, ← Nat.add_mul, Nat.add_sub_cancel' started] at last
    omega
  · intro fits m below
    have next : (k + m + 1) * Bpp ≤ n * Bpp := Nat.mul_le_mul_right _ (by omega)
    rw [Nat.add_mul, Nat.add_mul, Nat.one_mul] at next
    omega

theorem ChannelEncodes.length_eq {size : Nat} {bytes values : List UInt8}
    (encodes : ChannelEncodes size bytes values) : values.length = size := by
  induction encodes with
  | done => rfl
  | run wanted fits encodes more ih =>
    rw [List.length_append, ih]
    omega

theorem decodeRuns_eq_ok {fuel : Nat} {rest new : List UInt8} (column : i < Bpp) (started : k ≤ n)
    (sized : data.length = n * Bpp) (enough : tile.length < fuel) :
    (∃ d, decodeRuns Bpp fuel (n - k : Nat) ⟨tile, i + k * Bpp, data⟩ = .ok ⟨rest, d, new⟩) ↔
      ∃ bytes values, tile = bytes ++ rest ∧ ChannelEncodes (n - k) bytes values ∧
            new = written Bpp values (i + k * Bpp) data := by
  induction fuel generalizing k tile data with
  | zero => omega
  | succ fuel ih =>
    rcases Nat.eq_or_lt_of_le started with rfl | wanted
    · rw [Nat.sub_self, decodeRuns, if_neg (by decide)]
      constructor
      · rintro ⟨d, same⟩
        cases same
        exact ⟨[], [], rfl, .done, rfl⟩
      · rintro ⟨bytes, values, rfl, encodes, rfl⟩
        cases encodes with
        | done => exact ⟨_, rfl⟩
        | run wanted => cases wanted
    · rw [decodeRuns, if_pos (by omega)]
      simp only [bind_eq_ok]
      constructor
      · rintro ⟨d, ⟨length, s⟩, decoded, more⟩
        obtain ⟨bytes, values, left, stored, rfl, encodes, rfl, wrote, rfl⟩ :=
          decodeRun_eq_ok.mp decoded
        obtain ⟨room, rfl⟩ := writeRun_eq_ok.mp wrote
        simp only [sized] at room
        rw [room_iff column started] at room
        have position : i + k * Bpp + values.length * Bpp = i + (k + values.length) * Bpp := by ring
        have left' : ((n - k : Nat) : Int) - values.length = (n - (k + values.length) : Nat) := by
          omega
        have nonempty := encodes.length_pos
        simp only [position, left'] at more
        obtain ⟨bytesMore, valuesMore, rfl, encodesMore, rfl⟩ :=
          (ih room (by rw [length_written, sized])
            (by rw [List.length_append] at enough; omega)).mp ⟨d, more⟩
        refine ⟨bytes ++ bytesMore, values ++ valuesMore, (List.append_assoc ..).symm, ?_, ?_⟩
        · rw [Nat.sub_add_eq] at encodesMore
          exact .run (by omega) (by omega) encodes encodesMore
        · rw [written_append, position]
      · rintro ⟨bytes, values, rfl, encodes, rfl⟩
        generalize isSize : n - k = size at encodes
        cases encodes with
        | done => omega
        | @run _ bytes values rest' valuesRest _ fits encodes more =>
          subst isSize
          have position : i + k * Bpp + values.length * Bpp = i + (k + values.length) * Bpp := by
            ring
          have left' : ((n - k : Nat) : Int) - values.length = (n - (k + values.length) : Nat) := by
            omega
          have nonempty := encodes.length_pos
          have wrote : writeRun Bpp values (i + k * Bpp) data =
                .ok (written Bpp values (i + k * Bpp) data) :=
            writeRun_eq_ok.mpr ⟨by rw [sized]; exact (room_iff column started).mpr (by omega), rfl⟩
          have decoded : decodeRun Bpp ⟨bytes ++ (rest' ++ rest), i + k * Bpp, data⟩ =
                .ok (values.length, ⟨rest' ++ rest, i + k * Bpp + values.length * Bpp,
                    written Bpp values (i + k * Bpp) data⟩) :=
            decodeRun_eq_ok.mpr ⟨bytes, values, _, _, rfl, encodes, rfl, wrote, rfl⟩
          rw [Nat.sub_sub] at more
          have decodedMore : ∃ d, decodeRuns Bpp fuel (n - (k + values.length) : Nat)
                    ⟨rest' ++ rest, i + (k + values.length) * Bpp,
                      written Bpp values (i + k * Bpp) data⟩ =
                  .ok ⟨rest, d, written Bpp (values ++ valuesRest) (i + k * Bpp) data⟩ :=
            (ih (by omega) (by rw [length_written, sized]) (by
                rw [List.append_assoc, List.length_append] at enough
                omega)).mpr
              ⟨rest', valuesRest, rfl, more, by rw [written_append, position]⟩
          obtain ⟨d, decodedMore⟩ := decodedMore
          refine ⟨d, _, by rw [List.append_assoc]; exact decoded, ?_⟩
          simp only [left', position]
          exact decodedMore

theorem decodeChannel_eq_ok {rest new : List UInt8} (column : i < Bpp)
    (sized : data.length = n * Bpp) :
    decodeChannel Bpp n i (tile, data) = .ok (rest, new) ↔ ∃ bytes values, tile = bytes ++ rest ∧
          ChannelEncodes n bytes values ∧ new = written Bpp values i data := by
  have runs :=
    @decodeRuns_eq_ok Bpp n i 0 tile data (tile.length + 1) rest new column
      (Nat.zero_le _) sized (Nat.lt_succ_self _)
  simp only [Nat.sub_zero, Nat.zero_mul, Nat.add_zero] at runs
  rw [← runs, decodeChannel]
  simp only [bind_eq_ok]
  constructor
  · rintro ⟨⟨left, d, stored⟩, decoded, isResult⟩
    cases isResult
    exact ⟨d, decoded⟩
  · rintro ⟨d, decoded⟩
    exact ⟨_, decoded, rfl⟩

/-- What channels are written over, one after the other -/
def writtenAll (Bpp : Nat) : Nat → List (List UInt8) → List UInt8 → List UInt8
  | _, [], data => data
  | i, values :: channels, data => writtenAll Bpp (i + 1) channels (written Bpp values i data)

@[simp] theorem length_writtenAll (channels : List (List UInt8)) :
    (writtenAll Bpp i channels data).length = data.length := by
  induction channels generalizing i data with
  | nil => rfl
  | cons values channels ih => rw [writtenAll, ih, length_written]

theorem decodeChannels_eq_ok {count : Nat} {rest new : List UInt8} (columns : i + count ≤ Bpp)
    (sized : data.length = n * Bpp) :
    forLoop (decodeChannel Bpp n) count i (tile, data) = .ok (rest, new) ↔ ∃ bytes channels,
        tile = bytes ++ rest ∧ ChannelsEncode n bytes channels ∧
            channels.length = count ∧ new = writtenAll Bpp i channels data := by
  induction count generalizing i tile data with
  | zero =>
    constructor
    · intro same
      cases same
      exact ⟨[], [], rfl, .done, rfl, rfl⟩
    · rintro ⟨bytes, channels, rfl, encodes, noChannels, rfl⟩
      cases encodes with
      | done => rfl
      | channel => cases noChannels
  | succ count ih =>
    rw [forLoop, bind_eq_ok]
    constructor
    · rintro ⟨⟨left, stored⟩, decoded, looped⟩
      obtain ⟨bytes, values, rfl, encodes, rfl⟩ := (decodeChannel_eq_ok (by omega) sized).mp decoded
      obtain ⟨bytesMore, channels, rfl, encodesMore, counted, rfl⟩ :=
        (ih (by omega) (by rw [length_written, sized])).mp looped
      exact ⟨_, values :: channels, (List.append_assoc ..).symm,
        .channel encodes encodesMore, by rw [List.length_cons, counted], rfl⟩
    · rintro ⟨bytes, channels, rfl, encodes, counted, rfl⟩
      cases encodes with
      | done => cases counted
      | @channel bytes values rest' channels encodes more =>
        refine ⟨(rest' ++ rest, written Bpp values i data),
          (decodeChannel_eq_ok (by omega) sized).mpr
            ⟨bytes, values, List.append_assoc .., encodes, rfl⟩,
          (ih (by omega) (by rw [length_written, sized])).mpr
            ⟨rest', channels, rfl, more, Nat.succ.inj counted, rfl⟩⟩

theorem ChannelsEncode.length_eq {bytes : List UInt8} {channels : List (List UInt8)}
    (encodes : ChannelsEncode n bytes channels) : ∀ values ∈ channels, values.length = n := by
  induction encodes with
  | done => exact List.forall_mem_nil _
  | channel encodes _ ih => exact List.forall_mem_cons.mpr ⟨encodes.length_eq, ih⟩

theorem place_ne {j m : Nat} (column : i < Bpp) (columnOther : j < Bpp) (distinct : i ≠ j) :
    i + k * Bpp ≠ j + m * Bpp := by
  intro same
  have remainders := congrArg (· % Bpp) same
  simp only [Nat.add_mul_mod_self_right] at remainders
  rw [Nat.mod_eq_of_lt column, Nat.mod_eq_of_lt columnOther] at remainders
  exact distinct remainders

theorem getElem?_writtenAll {first : Nat} {channels : List (List UInt8)}
    (sizes : ∀ values ∈ channels, values.length = n) (columns : first + channels.length ≤ Bpp)
    (sized : data.length = n * Bpp) (column : i < Bpp) (below : k < n) :
    (writtenAll Bpp first channels data)[i + k * Bpp]? =
      if first ≤ i ∧ i < first + channels.length then (channels.getD (i - first) [])[k]?
      else
        data[i + k * Bpp]? := by
  have inside : i + k * Bpp < n * Bpp := by
    have next : (k + 1) * Bpp ≤ n * Bpp := Nat.mul_le_mul_right _ below
    rw [Nat.add_mul, Nat.one_mul] at next
    omega
  induction channels generalizing first data with
  | nil =>
    rw [if_neg (by rw [List.length_nil]; omega)]
    rfl
  | cons values channels ih =>
    rw [List.length_cons] at columns
    rw [List.forall_mem_cons] at sizes
    rw [writtenAll, ih sizes.2 (by omega) (by rw [length_written, sized]), List.length_cons]
    rcases Nat.lt_trichotomy i first with before | rfl | behind
    · rw [if_neg (by omega), if_neg (by omega)]
      exact getElem?_written_ne fun m _ => place_ne column (by omega) (by omega)
    · rw [if_neg (by omega), if_pos (by omega), Nat.sub_self, List.getD_cons_zero]
      exact getElem?_written (by omega) (by rw [sizes.1]; exact below) (by rw [sized]; exact inside)
    · have next : i - first = i - (first + 1) + 1 := by omega
      rw [next, List.getD_cons_succ]
      by_cases within : i < first + 1 + channels.length
      · rw [if_pos (by omega), if_pos (by omega)]
      · rw [if_neg (by omega), if_neg (by omega)]
        exact getElem?_written_ne fun m _ => place_ne column (by omega) (by omega)

theorem channelsOf_writtenAll {channels : List (List UInt8)}
    (sizes : ∀ values ∈ channels, values.length = n) (counted : channels.length = Bpp)
    (sized : data.length = n * Bpp) :
    channelsOf (writtenAll Bpp 0 channels data) Bpp n = channels := by
  apply List.ext_getElem
  · rw [channelsOf, List.length_map, List.length_range, counted]
  · intro i below within
    rw [counted] at within
    have size := sizes channels[i] (List.getElem_mem _)
    simp only [channelsOf, List.getElem_map, List.getElem_range]
    apply List.ext_getElem
    · rw [channelOf, List.length_map, List.length_range, size]
    · intro k belowToo _
      rw [size] at *
      have here :=
        @getElem?_writtenAll Bpp n i k data 0 channels sizes (by omega) sized within (by assumption)
      rw [if_pos (by omega), Nat.sub_zero] at here
      simp only [channelOf, List.getElem_map, List.getElem_range, List.getD_eq_getElem?_getD, here]
      simp [*]

theorem writtenAll_channelsOf {new : List UInt8} (sized : data.length = n * Bpp)
    (sizedNew : new.length = n * Bpp) : writtenAll Bpp 0 (channelsOf new Bpp n) data = new := by
  apply List.ext_getElem?
  intro index
  by_cases inside : index < n * Bpp
  · have positive : 0 < Bpp := by
      rcases Nat.eq_zero_or_pos Bpp with rfl | positive
      · omega
      · exact positive
    have column := Nat.mod_lt index positive
    have row : index / Bpp < n := (Nat.div_lt_iff_lt_mul positive).mpr inside
    have place : index % Bpp + index / Bpp * Bpp = index := by
      rw [Nat.mul_comm]
      exact Nat.mod_add_div index Bpp
    have sizes : ∀ values ∈ channelsOf new Bpp n, values.length = n := by
      intro values among
      obtain ⟨i, _, rfl⟩ := List.mem_map.mp among
      rw [channelOf, List.length_map, List.length_range]
    have counted : (channelsOf new Bpp n).length = Bpp := by
      rw [channelsOf, List.length_map, List.length_range]
    have here :=
      @getElem?_writtenAll Bpp n (index % Bpp) (index / Bpp) data 0
        (channelsOf new Bpp n) sizes (by omega) sized column row
    rw [if_pos (by omega), Nat.sub_zero, place] at here
    rw [here]
    have channel : (channelsOf new Bpp n).getD (index % Bpp) [] =
          channelOf new Bpp n (index % Bpp) := by
      simp [channelsOf, List.getD_eq_getElem?_getD, column]
    rw [channel, channelOf, List.getElem?_map, List.getElem?_range row,
      Option.map_some, place, List.getD_eq_getElem?_getD,
      List.getElem?_eq_getElem (by omega), Option.getD_some]
  · rw [List.getElem?_eq_none, List.getElem?_eq_none]
    · omega
    · rw [length_writtenAll]
      omega

end Channels

/-! ## Tiles -/

section Tiles

variable {Bpp x y : Nat} {bytes data : List UInt8} {fresh : Nat → UInt8}

/-- The number of pixels and of bytes of a tile are `int`s. -/
structure TileSized (Bpp x y : Nat) : Prop where
  pixels : CType.int.Holds (x * y : Nat)
  bytes : CType.int.Holds (x * y * Bpp : Nat)

/-- Bytes begin with the runs of a tile. -/
def TileEncodes (bytes : List UInt8) (Bpp x y : Nat) (data : List UInt8) : Prop :=
  data.length = x * y * Bpp ∧ ∃ stream rest, bytes = stream ++ rest ∧
        ChannelsEncode (x * y) stream (channelsOf data Bpp (x * y))

theorem readTileRLE_eq_ok (sized : TileSized Bpp x y) :
    readTileRLE (some fresh) bytes Bpp x y = .ok (some data) ↔ TileEncodes bytes Bpp x y data := by
  have pixels : intResult ((x : Int) * y) = .ok (x * y : Nat) := by
    rw [← Nat.cast_mul]
    exact intResult_of_holds sized.pixels
  have room : intResult (((x * y : Nat) : Int) * Bpp) = .ok (x * y * Bpp : Nat) := by
    rw [← Nat.cast_mul]
    exact intResult_of_holds sized.bytes
  have length : (freshBytes fresh (x * y * Bpp)).length = x * y * Bpp := by
    rw [freshBytes, List.length_map, List.length_range]
  unfold readTileRLE TileEncodes
  rw [pixels, ok_bind, room, ok_bind]
  simp only [Int.toNat_natCast, bind_eq_ok]
  constructor
  · rintro ⟨⟨rest, new⟩, looped, isData⟩
    cases isData
    obtain ⟨stream, channels, rfl, encodes, counted, rfl⟩ :=
      (decodeChannels_eq_ok (by omega) length).mp looped
    refine ⟨by rw [length_writtenAll, length], stream, rest, rfl, ?_⟩
    rwa [channelsOf_writtenAll encodes.length_eq counted length]
  · rintro ⟨sizedData, stream, rest, rfl, encodes⟩
    refine ⟨(rest, data), (decodeChannels_eq_ok (by omega) length).mpr
      ⟨stream, channelsOf data Bpp (x * y), rfl, encodes, ?_, ?_⟩, rfl⟩
    · rw [channelsOf, List.length_map, List.length_range]
    · exact (writtenAll_channelsOf length sizedData).symm

theorem readTileRLE_safe_iff (sized : TileSized Bpp x y) :
    (∃ result, readTileRLE (some fresh) bytes Bpp x y = .ok result) ↔
      ∃ data, TileEncodes bytes Bpp x y data := by
  constructor
  · rintro ⟨result, decoded⟩
    cases result with
    | none =>
      unfold readTileRLE at decoded
      simp only [bind_eq_ok] at decoded
      obtain ⟨_, _, _, _, _, _, isNone⟩ := decoded
      cases isNone
    | some data => exact ⟨data, (readTileRLE_eq_ok sized).mp decoded⟩
  · rintro ⟨data, encodes⟩
    exact ⟨some data, (readTileRLE_eq_ok sized).mpr encodes⟩

end Tiles

end Agar.Gui.Xcf
