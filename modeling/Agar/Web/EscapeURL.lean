import Agar.Core.DataSource
import Agar.Lib.Outcome
import Agar.Lib.Realloc
import Agar.Web.Query

namespace Agar.Web

open Agar.Lib
open Agar.Core

/-!
# Escaping of URLs

`WEB_EscapeURL` and `WEB_UnescapeURL` write their results character by
character into memory that they allocate.  `WEB_EscapeURL` asks for more of it
as it goes, and goes on writing through the pointer that it has.
-/

/-! ## Characters -/

/-- `isgraph` -/
def isGraph (c : UInt8) : Bool := 33 ≤ c && c ≤ 126

/-- `url_unsafe` -/
def urlUnsafe : List UInt8 := ascii "<>\"#%\x7b\x7d|\\^~[]`"

/-- Whether `WEB_EscapeURL` finds a character to be unsafe -/
def isUnsafe (c : UInt8) : Bool := !isGraph c || urlUnsafe.contains c

/-- A digit that `"%02x"` prints -/
def hexDigit (n : UInt8) : UInt8 :=
  if n < 10 then 48 + n else 87 + n

/-- What stands for a character in an escaped URL -/
def escapeChar (c : UInt8) : List UInt8 :=
  if isUnsafe c then [37, hexDigit (c >>> 4), hexDigit (c &&& 15)] else [c]

/-- An escaped URL -/
def escape (url : List UInt8) : List UInt8 := url.flatMap escapeChar

/-! ## The functions -/

/-- A pointer into a block of memory, through which characters are stored -/
structure Output where
  heap : Heap (List UInt8)
  block : Nat
  dp : Nat

/-- `*dp++ = c` -/
def Output.put (out : Output) (c : UInt8) : Except Stop Output :=
  match out.heap.storeCell out.block out.dp c with
  | none => .error .undefined
  | some heap => .ok { out with heap := heap, dp := out.dp + 1 }

/-- Store some characters, one after the other. -/
def Output.putAll (out : Output) (text : List UInt8) : Except Stop Output :=
  text.foldlM Output.put out

/-- `Malloc(len)`, with nothing else allocated -/
def Output.malloc (fresh : Nat → UInt8) (len : Nat) : Output where
  heap := Heap.empty.alloc (resize fresh len [])
  block := (Heap.empty : Heap (List UInt8)).next
  dp := 0

/-- Read the string at an address. -/
def Output.read (out : Output) (address : Nat) : Except Stop (List UInt8) :=
  match out.heap.cells address with
  | none => .error .undefined
  | some block => if 0 ∈ block then .ok (cString block) else .error .undefined

/-- The variables of `WEB_EscapeURL`, and how often it called `Realloc` -/
structure Escaping where
  out : Output
  dst : Nat
  len : Nat
  calls : Nat

namespace Escaping

/-- `dp = dst = Malloc(len)` -/
def start (fresh : Nat → UInt8) (len : Nat) : Escaping where
  out := .malloc fresh len
  dst := (Output.malloc fresh len).block
  len := len
  calls := 0

/-- `len += 3; dst = Realloc(dst, len)` -/
def grow (fresh : Nat → UInt8) (moves : Nat → Bool) (st : Escaping) : Except Stop Escaping :=
  let resizing := if moves st.calls then .moved else .inPlace
  match st.out.heap.realloc fresh st.dst (st.len + 3) resizing with
  | none => .error .undefined
  | some (heap, dst) =>
    .ok {
      out := { st.out with heap := heap }
      dst := dst
      len := st.len + 3
      calls := st.calls + 1
    }

/-- Store some characters through `dp`. -/
def putAll (st : Escaping) (text : List UInt8) : Except Stop Escaping := do
  let out ← st.out.putAll text
  return { st with out := out }

/-- One turn of the loop of `WEB_EscapeURL` -/
def turn (fresh : Nat → UInt8) (moves : Nat → Bool) (st : Escaping)
    (c : UInt8) : Except Stop Escaping :=
  if isUnsafe c then do
    let st ← st.grow fresh moves
    st.putAll [37, hexDigit (c >>> 4), hexDigit (c &&& 15)]
  else st.putAll [c]

end Escaping

/--
`WEB_EscapeURL`: the string at `dst` when it returns.  A call of `Realloc` may
move the block or not; where memory is refused, the program ends.
-/
def escapeURL (fresh : Nat → UInt8) (moves : Nat → Bool)
    (url : List UInt8) : Except Stop (List UInt8) := do
  let start := Escaping.start fresh (url.length + 1)
  let st ← url.foldlM (Escaping.turn fresh moves) start
  let out ← st.out.put 0
  out.read st.dst

/-- The loop of `WEB_UnescapeURL` -/
def unescapeTurns (out : Output) : List UInt8 → Except Stop Output
  | 37 :: high :: low :: rest =>
    if isXDigit high && isXDigit low then do
      let n := 16 * hexValue high + hexValue low
      let out ← out.put (if n = 0 then 95 else n)
      unescapeTurns out rest
    else do
      let out ← out.put 37
      unescapeTurns out (high :: low :: rest)
  | 43 :: rest => do
      let out ← out.put 32
      unescapeTurns out rest
  | c :: rest => do
      let out ← out.put c
      unescapeTurns out rest
  | [] => .ok out

/-- `WEB_UnescapeURL`, which returns `NULL` where memory is refused -/
def unescapeURL (fresh : Nat → UInt8) (granted : Bool)
    (url : List UInt8) : Except Stop (Option (List UInt8)) :=
  if granted then do
    let start := Output.malloc fresh (url.length + 2)
    let out ← unescapeTurns start url
    let out ← out.put 0
    let text ← out.read out.block
    return some text
  else return none

/-! ## Writing -/

/-- Some text was stored in front of a pointer into a block of some size. -/
structure Output.Writes (out : Output) (text : List UInt8) (size : Nat) : Prop where
  behind : out.dp = text.length
  stored : ∃ block, out.heap.cells out.block = some block ∧
      block.length = size ∧ block.take text.length = text

namespace Output

variable {out : Output} {text : List UInt8} {size : Nat}

theorem Writes.length_le (writes : out.Writes text size) : text.length ≤ size := by
  obtain ⟨block, _, sized, stored⟩ := writes.stored
  have lengths := congrArg List.length stored
  rw [List.length_take] at lengths
  omega

theorem Writes.put (writes : out.Writes text size) (room : text.length < size) (c : UInt8) :
    ∃ next, out.put c = .ok next ∧ next.Writes (text ++ [c]) size ∧ next.block = out.block := by
  obtain ⟨behind, block, live, sized, stored⟩ := writes
  have inside : out.dp < block.length := by omega
  refine ⟨{ out with
    heap := out.heap.modify out.block fun block => block.set out.dp c
    dp := out.dp + 1 }, ?_, ⟨?_, ?_⟩, rfl⟩
  · rw [Output.put, Heap.storeCell_inside live inside]
  · rw [List.length_append, behind, List.length_singleton]
  · refine ⟨_, Heap.cells_modify_self live _, ?_, ?_⟩
    · rw [List.length_set, sized]
    · rw [List.length_append, List.length_singleton, List.take_add_one,
        behind, List.take_set_of_le (Nat.le_refl _), stored,
        List.getElem?_set_self (behind ▸ inside)]
      rfl

theorem Writes.putAll (writes : out.Writes text size) {more : List UInt8}
    (room : text.length + more.length ≤ size) :
    ∃ next, out.putAll more = .ok next ∧
      next.Writes (text ++ more) size ∧ next.block = out.block := by
  induction more generalizing out text with
  | nil =>
    refine ⟨out, rfl, ?_, rfl⟩
    rwa [List.append_nil]
  | cons c rest ih =>
    rw [List.length_cons] at room
    obtain ⟨next, put, nextWrites, sameBlock⟩ := writes.put (by omega) c
    obtain ⟨final, putRest, finalWrites, finalBlock⟩ :=
      ih nextWrites (by rw [List.length_append, List.length_singleton]; omega)
    refine ⟨final, ?_, ?_, finalBlock.trans sameBlock⟩
    · rw [Output.putAll, List.foldlM_cons, put]
      exact putRest
    · rwa [List.append_assoc] at finalWrites

theorem writes_malloc (fresh : Nat → UInt8) (len : Nat) : (malloc fresh len).Writes [] len where
  behind := rfl
  stored := by
    refine ⟨resize fresh len [], ?_, length_resize .., List.take_zero⟩
    rw [malloc, Heap.cells_alloc, Function.update_self]

theorem Writes.read (writes : out.Writes text size) (room : text.length < size) (noNul : 0 ∉ text) :
    ∃ next, out.put 0 = .ok next ∧ next.read out.block = .ok text := by
  obtain ⟨next, put, ⟨_, block, live, _, stored⟩, sameBlock⟩ := writes.put room 0
  have whole : block = text ++ 0 :: block.drop (text ++ [0]).length := by
    conv_lhs => rw [← List.take_append_drop (text ++ [0]).length block, stored]
    rw [List.append_assoc, List.singleton_append]
  refine ⟨next, put, ?_⟩
  rw [Output.read, ← sameBlock, live]
  have terminated : 0 ∈ block := by
    rw [whole]
    simp
  simp only [if_pos terminated]
  rw [whole, cString_terminated noNul]

end Output

/-! ## Escaping -/

/-- Some text is written, and `dst` still points to the block of `dp`. -/
structure Escaping.Ready (st : Escaping) (text : List UInt8) : Prop where
  writes : st.out.Writes text st.len
  same : st.dst = st.out.block

namespace Escaping

variable {fresh : Nat → UInt8} {moves : Nat → Bool} {st : Escaping} {text : List UInt8}

theorem ready_start (fresh : Nat → UInt8) (len : Nat) : (start fresh len).Ready [] :=
  ⟨Output.writes_malloc fresh len, rfl⟩

theorem Ready.grow (ready : st.Ready text) (stays : moves st.calls = false) :
    ∃ next, st.grow fresh moves = .ok next ∧ next.Ready text ∧
      next.len = st.len + 3 ∧ next.calls = st.calls + 1 := by
  have fits := ready.writes.length_le
  obtain ⟨⟨behind, block, live, sized, stored⟩, same⟩ := ready
  refine ⟨{
    out := { st.out with heap := st.out.heap.modify st.dst (resize fresh (st.len + 3)) }
    dst := st.dst
    len := st.len + 3
    calls := st.calls + 1 }, ?_, ⟨⟨behind, ?_⟩, same⟩, rfl, rfl⟩
  · rw [Escaping.grow, stays, if_neg Bool.false_ne_true, Heap.realloc_inPlace (same ▸ live)]
  · refine ⟨resize fresh (st.len + 3) block, ?_, length_resize .., ?_⟩
    · rw [same]
      exact Heap.cells_modify_self live _
    · rw [resize, List.take_append_of_le_length, List.take_take, min_eq_left (by omega), stored]
      rw [List.length_take]
      omega

theorem Ready.putAll (ready : st.Ready text) {more : List UInt8}
    (room : text.length + more.length ≤ st.len) :
    ∃ next, st.putAll more = .ok next ∧ next.Ready (text ++ more) ∧
      next.len = st.len ∧ next.calls = st.calls := by
  obtain ⟨out, put, writes, sameBlock⟩ := ready.writes.putAll room
  refine ⟨{ st with out := out }, ?_, ⟨writes, ready.same.trans sameBlock.symm⟩, rfl, rfl⟩
  rw [Escaping.putAll, put]
  rfl

theorem Ready.turn (ready : st.Ready text) {c : UInt8} (room : text.length < st.len)
    (stays : isUnsafe c = true → moves st.calls = false) :
    ∃ next, st.turn fresh moves c = .ok next ∧ next.Ready (text ++ escapeChar c) ∧
      st.len + (text ++ escapeChar c).length ≤ next.len + text.length + 1 ∧
      next.calls = st.calls + [c].countP isUnsafe := by
  unfold Escaping.turn escapeChar
  by_cases escaped : isUnsafe c = true
  · obtain ⟨grown, grows, grownReady, grownLen, grownCalls⟩ :=
      @Ready.grow fresh moves st text ready (stays escaped)
    obtain ⟨next, put, nextReady, nextLen, nextCalls⟩ :=
      @Ready.putAll grown text grownReady [37, hexDigit (c >>> 4), hexDigit (c &&& 15)]
        (by rw [grownLen, List.length_cons, List.length_cons, List.length_singleton]; omega)
    simp only [if_pos escaped]
    refine ⟨next, ?_, nextReady, ?_, ?_⟩
    · rw [grows]
      exact put
    · rw [nextLen, grownLen, List.length_append]
      simp only [List.length_cons, List.length_nil]
      omega
    · rw [nextCalls, grownCalls, List.countP_cons_of_pos escaped, List.countP_nil]
  · obtain ⟨next, put, nextReady, nextLen, nextCalls⟩ :=
      @Ready.putAll st text ready [c] (by rwa [List.length_singleton])
    simp only [if_neg escaped]
    refine ⟨next, put, nextReady, ?_, ?_⟩
    · rw [nextLen, List.length_append, List.length_singleton, Nat.add_assoc]
    · rw [nextCalls, List.countP_cons_of_neg escaped, List.countP_nil, Nat.add_zero]

theorem Ready.turn_moved (ready : st.Ready text) {c : UInt8} (escaped : isUnsafe c = true)
    (moved : moves st.calls = true) : st.turn fresh moves c = .error .undefined := by
  obtain ⟨⟨behind, block, live, sized, stored⟩, same⟩ := ready
  rw [Escaping.turn, if_pos escaped, Escaping.grow, moved, if_pos rfl,
    Heap.realloc_moved (same ▸ live)]
  have freed : ((st.out.heap.alloc (resize fresh (st.len + 3) block)).free st.dst).cells
        st.out.block = none := by
    rw [same, Heap.cells_free, Function.update_self]
  have stuck : Output.put
        { st.out with
          heap := (st.out.heap.alloc (resize fresh (st.len + 3) block)).free st.dst } 37 =
        .error .undefined := by
    rw [Output.put, Heap.storeCell_freed freed]
  simp only [ok_bind, Escaping.putAll, Output.putAll, List.foldlM_cons, stuck]
  rfl

theorem Ready.turns (ready : st.Ready text) {url : List UInt8}
    (room : text.length + url.length < st.len)
    (stays : ∀ k < url.countP isUnsafe, moves (st.calls + k) = false) :
    ∃ next, url.foldlM (Escaping.turn fresh moves) st = .ok next ∧ next.Ready (text ++ escape url) ∧
      (text ++ escape url).length < next.len := by
  induction url generalizing st text with
  | nil =>
    rw [escape, List.flatMap_nil, List.append_nil]
    exact ⟨st, rfl, ready, room⟩
  | cons c rest ih =>
    rw [List.length_cons] at room
    rw [← List.singleton_append, List.countP_append] at stays
    obtain ⟨next, turned, nextReady, nextRoom, nextCalls⟩ :=
      @Ready.turn fresh moves st text ready c (by omega) fun escaped =>
        stays 0 (by rw [List.countP_cons_of_pos escaped]; omega)
    obtain ⟨final, finishes, finalReady, finalRoom⟩ :=
      ih nextReady (by omega) fun k few => by
        rw [nextCalls, Nat.add_assoc]
        exact stays _ (by omega)
    have whole : text ++ escape (c :: rest) = text ++ escapeChar c ++ escape rest := by
      rw [escape, List.flatMap_cons, List.append_assoc, escape]
    rw [whole]
    refine ⟨final, ?_, finalReady, finalRoom⟩
    rw [List.foldlM_cons, turned]
    exact finishes

theorem Ready.turns_moved (ready : st.Ready text) {url : List UInt8}
    (room : text.length + url.length < st.len) {k : Nat} (few : k < url.countP isUnsafe)
    (moved : moves (st.calls + k) = true) :
    url.foldlM (Escaping.turn fresh moves) st = .error .undefined := by
  induction url generalizing st text k with
  | nil => exact absurd few (Nat.not_lt_zero k)
  | cons c rest ih =>
    rw [List.length_cons] at room
    rw [← List.singleton_append, List.countP_append] at few
    rw [List.foldlM_cons]
    by_cases now : isUnsafe c = true ∧ moves st.calls = true
    · rw [ready.turn_moved now.1 now.2]
      rfl
    · have stays (escaped : isUnsafe c = true) : moves st.calls = false := by
        rw [← Bool.not_eq_true]
        exact fun moved => now ⟨escaped, moved⟩
      obtain ⟨next, turned, nextReady, nextRoom, nextCalls⟩ :=
        @Ready.turn fresh moves st text ready c (by omega) stays
      have later : [c].countP isUnsafe ≤ k := by
        by_contra sooner
        have escaped : isUnsafe c = true := by
          by_contra safe
          rw [List.countP_cons_of_neg safe] at sooner
          exact sooner (Nat.zero_le k)
        rw [List.countP_cons_of_pos escaped, List.countP_nil] at sooner
        obtain rfl : k = 0 := by omega
        rw [Nat.add_zero, stays escaped] at moved
        cases moved
      rw [turned]
      refine ih nextReady (by omega) (k := k - [c].countP isUnsafe) (by omega) ?_
      rw [nextCalls, Nat.add_assoc, Nat.add_sub_cancel' later]
      exact moved

end Escaping

theorem read_hexDigits (c : UInt8) : let high := hexDigit (c >>> 4)
    let low := hexDigit (c &&& 15)
    isXDigit high = true ∧ isXDigit low = true ∧ (16 : UInt8) * hexValue high + hexValue low = c ∧
      high ≠ 0 ∧ low ≠ 0 := by
  revert c
  decide +kernel

variable {url : List UInt8}

theorem escape_noNul (noNul : 0 ∉ url) : 0 ∉ escape url := by
  rw [escape, List.mem_flatMap]
  rintro ⟨c, member, nul⟩
  obtain ⟨_, _, _, high, low⟩ := read_hexDigits c
  unfold escapeChar at nul
  split at nul
  case isTrue => simp [Ne.symm high, Ne.symm low] at nul
  case isFalse =>
    rw [List.mem_singleton.mp nul] at noNul
    exact noNul member

theorem escapeURL_of_stays (fresh : Nat → UInt8) {moves : Nat → Bool} (noNul : 0 ∉ url)
    (stays : ∀ k < url.countP isUnsafe, moves k = false) :
    escapeURL fresh moves url = .ok (escape url) := by
  have room : ([] : List UInt8).length + url.length < url.length + 1 := by
    rw [List.length_nil]
    omega
  obtain ⟨st, loop, ready, roomLeft⟩ :=
    @Escaping.Ready.turns fresh moves _ [] (Escaping.ready_start fresh _) url
      room fun k few => (Nat.zero_add k).symm ▸ stays k few
  obtain ⟨out, ends, reads⟩ := ready.writes.read roomLeft (escape_noNul noNul)
  rw [escapeURL]
  simp only [loop, ok_bind, ends, ready.same]
  exact reads

theorem escapeURL_of_moved (fresh : Nat → UInt8) {moves : Nat → Bool} {k : Nat}
    (few : k < url.countP isUnsafe) (moved : moves k = true) :
    escapeURL fresh moves url = .error .undefined := by
  have room : ([] : List UInt8).length + url.length < url.length + 1 := by
    rw [List.length_nil]
    omega
  have loop :=
    @Escaping.Ready.turns_moved fresh moves _ [] (Escaping.ready_start fresh _)
      url room k few ((Nat.zero_add k).symm ▸ moved)
  rw [escapeURL]
  simp only [loop]
  rfl

/-! ## Unescaping -/

theorem Output.putAll_cons (out : Output) (c : UInt8) (rest : List UInt8) :
    out.putAll (c :: rest) = out.put c >>= fun next => next.putAll rest := by
  rw [Output.putAll, List.foldlM_cons]
  rfl

theorem unescapeTurns_eq (out : Output) (url : List UInt8) :
    unescapeTurns out url = out.putAll (unescape url) := by
  induction url using unescape.induct generalizing out with
  | case1 high low rest digits ih =>
    rw [unescapeTurns, unescape, if_pos digits, if_pos digits, Output.putAll_cons]
    simp only [ih]
  | case2 high low rest digits ih =>
    rw [unescapeTurns, unescape, if_neg digits, if_neg digits, Output.putAll_cons]
    simp only [ih]
  | case3 rest ih =>
    rw [unescapeTurns, unescape, Output.putAll_cons]
    simp only [ih]
  | case4 c rest _ _ ih =>
    rw [unescapeTurns, unescape, Output.putAll_cons]
    simp only [ih]
    all_goals assumption
  | case5 => rfl

theorem length_unescape_le (url : List UInt8) : (unescape url).length ≤ url.length := by
  fun_induction unescape url <;> grind

theorem unescape_noNul (noNul : 0 ∉ url) : 0 ∉ unescape url := by
  fun_induction unescape url <;> grind

theorem unescapeURL_eq (fresh : Nat → UInt8) (noNul : 0 ∉ url) :
    unescapeURL fresh true url = .ok (some (unescape url)) := by
  have short := length_unescape_le url
  have room : ([] : List UInt8).length + (unescape url).length ≤ url.length + 2 := by
    rw [List.length_nil]
    omega
  obtain ⟨out, puts, writes, sameBlock⟩ := (Output.writes_malloc fresh (url.length + 2)).putAll room
  rw [List.nil_append] at writes
  obtain ⟨final, ends, reads⟩ := writes.read (by omega) (unescape_noNul noNul)
  have inside : final.block = out.block := by
    obtain ⟨next, put, _, nextBlock⟩ := writes.put (by omega) 0
    rw [ends] at put
    rwa [Except.ok.inj put]
  rw [unescapeURL, if_pos rfl]
  simp only [unescapeTurns_eq, puts, ok_bind, ends, inside, reads]
  rfl

theorem unescape_escape (noNul : 0 ∉ url) :
    unescape (escape url) = url.map fun c => if c = 43 then 32 else c := by
  induction url with
  | nil => rfl
  | cons c rest ih =>
    have nonzero : c ≠ 0 := fun same => noNul (same ▸ List.mem_cons_self)
    have later := ih fun member => noNul (List.mem_cons_of_mem c member)
    rw [escape, List.flatMap_cons, ← escape, List.map_cons, ← later]
    unfold escapeChar
    by_cases escaped : isUnsafe c = true
    · obtain ⟨high, low, value, _⟩ := read_hexDigits c
      have notPlus : c ≠ 43 := by
        rintro rfl
        exact absurd escaped (by decide)
      rw [if_pos escaped, if_neg notPlus, List.cons_append, List.cons_append,
        List.singleton_append, unescape, high, low]
      simp only [Bool.and_self, if_true, value, if_neg nonzero]
    · have notPercent : c ≠ 37 := by
        rintro rfl
        exact escaped (by decide)
      rw [if_neg escaped, List.singleton_append]
      by_cases plus : c = 43
      · rw [plus, if_pos rfl, unescape]
      · rw [if_neg plus, unescape]
        · exact fun _ _ _ same _ => notPercent same
        · exact plus

/--
Escaping and unescaping a URL writes inside the buffers and gives the URL back
exactly if it has no `+`, and if none of the blocks that `WEB_EscapeURL` asks
`Realloc` to extend, one for each unsafe character, is moved.
-/
theorem escapeURL_inverted_iff (fresh freshToo : Nat → UInt8) (moves : Nat → Bool)
    {url : List UInt8} (noNul : 0 ∉ url) :
    (escapeURL fresh moves url >>= fun escaped =>
        unescapeURL freshToo true escaped) = .ok (some url) ↔
      43 ∉ url ∧ ∀ k < url.countP isUnsafe, moves k = false := by
  by_cases stays : ∀ k < url.countP isUnsafe, moves k = false
  · rw [escapeURL_of_stays fresh noNul stays, ok_bind,
      unescapeURL_eq freshToo (escape_noNul noNul), unescape_escape noNul,
      Except.ok.injEq, Option.some.injEq]
    refine ⟨fun same => ⟨fun plus => ?_, stays⟩, fun ⟨noPlus, _⟩ => ?_⟩
    · rw [← same, List.mem_map] at plus
      obtain ⟨c, _, isPlus⟩ := plus
      split at isPlus <;> simp_all
    · conv_rhs => rw [← List.map_id url]
      refine List.map_congr_left fun c member => if_neg ?_
      exact fun same => noPlus (same ▸ member)
  · simp only [not_forall, Bool.not_eq_false] at stays
    obtain ⟨k, few, moved⟩ := stays
    rw [escapeURL_of_moved fresh few moved]
    refine ⟨nofun, fun ⟨_, kept⟩ => ?_⟩
    rw [kept k few] at moved
    cases moved

theorem escapeURL_inverted_blank :
    (escapeURL (fun _ => 0) (fun _ => false) (ascii "/a b") >>= fun escaped =>
        unescapeURL (fun _ => 0) true escaped) = .ok (some (ascii "/a b")) ↔
      43 ∉ ascii "/a b" ∧ ∀ k < (ascii "/a b").countP isUnsafe, (fun _ => false) k = false :=
  escapeURL_inverted_iff _ _ _ (by decide)

theorem escapeURL_not_inverted :
    (escapeURL (fun _ => 0) (fun _ => false) (ascii "1+1") >>= fun escaped =>
        unescapeURL (fun _ => 0) true escaped) = .ok (some (ascii "1 1")) ∧
      escapeURL (fun _ => 0) (fun _ => true) (ascii "/a b") = .error .undefined :=
  ⟨by decide +kernel, by decide +kernel⟩

end Agar.Web
