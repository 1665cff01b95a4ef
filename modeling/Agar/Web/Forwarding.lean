import Agar.Lib.Turns
import Agar.Web.Response

namespace Agar.Web

open Agar.Lib

/-!
# Forwarding the body of a request

The frontend does not read the body of every request: what it has not read, it
passes on to the worker as it comes from the client.  The body is the bytes of
the connection behind the header, and some of them are in the buffer that the
header was read with.

What the client and the worker do is a `ForwardTurn` for each turn of the loop.
`WEB_SYS_Write` is seen from outside: it sends all bytes, or it returns an
error after having sent some.
-/

/-- What a `read` from the client finds -/
inductive ReadResult where
  /-- So many bytes can be read: none at the end of the file. -/
  | ready (count : Nat)
  /-- `EINTR` or `EAGAIN` -/
  | interrupted
  /-- Any other error -/
  | failed
  deriving DecidableEq

/-- How the system calls of a `WEB_SYS_Write` go -/
inductive WriteResult where
  | through
  /-- There is an error as soon as so many bytes are sent. -/
  | broken (sent : Nat)
  deriving DecidableEq

/-- What happens outside in one turn of the loop -/
structure ForwardTurn where
  read : ReadResult
  write : WriteResult

/-- What the loop has done so far: `worker` is what the worker was sent. -/
structure ForwardState where
  nRead : Nat
  worker : List UInt8
  deriving DecidableEq

/-- How the forwarding ends: `failData` is `goto fail_data`. -/
inductive Forwarded where
  | done (worker : List UInt8)
  | failData (worker : List UInt8)
  deriving DecidableEq

/-- The fields of the query that the forwarding looks at -/
structure ForwardQuery where
  contentLength : Nat
  /-- `WEB_QUERY_CONTENT_READ` -/
  contentRead : Bool

/-- `count` bytes of the connection, from the one with number `start` on -/
def segment (body : Nat → UInt8) (start count : Nat) : List UInt8 :=
  (List.range count).map fun index => body (start + index)

/-- Whether a write of `len` bytes meets the error. -/
def WriteResult.breaks (len : Nat) : WriteResult → Bool
  | .through => false
  | .broken sent => sent < len

/-- The bytes that a write sends before it returns -/
def WriteResult.sent (data : List UInt8) : WriteResult → List UInt8
  | .through => data
  | .broken sent => data.take sent

/-- `WEB_SYS_Write`: what was sent, and whether it returns zero -/
def sysWrite (write : WriteResult) (data : List UInt8) : List UInt8 × Bool :=
  (write.sent data, !write.breaks data.length)

/-- One turn of the loop, with its test -/
def forwardTurn (query : ForwardQuery) (body : Nat → UInt8) (turn : ForwardTurn)
    (state : ForwardState) : Progress ForwardState Forwarded :=
  if state.nRead < query.contentLength then
    match turn.read with
    | .interrupted => .running state
    | .failed => .ended (.failData state.worker)
    | .ready count =>
      let rv := min count (min dataBufSize (query.contentLength - state.nRead))
      -- the end of the file is not told apart: `rv` is zero then
      match sysWrite turn.write (segment body state.nRead rv) with
      | (written, true) => .running ⟨state.nRead + rv, state.worker ++ written⟩
      | (written, false) => .ended (.failData (state.worker ++ written))
  else .ended (.done state.worker)

/-- What is done before the loop: the bytes that came with the header are sent. -/
def forwardStart (query : ForwardQuery) (body : Nat → UInt8) (rdBufLen : Nat)
    (firstWrite : WriteResult) : Progress ForwardState Forwarded :=
  if query.contentLength > 0 && !query.contentRead then
    if rdBufLen > 0 then
      match sysWrite firstWrite (segment body 0 rdBufLen) with
      | (written, true) => .running ⟨rdBufLen, written⟩
      | (written, false) => .ended (.failData written)
    else .running ⟨rdBufLen, []⟩
  else .ended (.done [])

/-- The forwarding ends with a result. -/
def ForwardEnds (query : ForwardQuery) (body : Nat → UInt8) (rdBufLen : Nat)
    (firstWrite : WriteResult) (turns : Nat → ForwardTurn) (result : Forwarded) : Prop :=
  match forwardStart query body rdBufLen firstWrite with
  | .ended early => result = early
  | .running state => EndsWith (fun count => forwardTurn query body (turns count)) state result

/-- What the worker is to get: nothing when the frontend has read the body -/
def toForward (query : ForwardQuery) (body : Nat → UInt8) : List UInt8 :=
  if query.contentRead then [] else segment body 0 query.contentLength

/--
The forwarding ends, and it has sent the body of the request or it reports a
failure.
-/
def ForwardsBody (query : ForwardQuery) (body : Nat → UInt8) (rdBufLen : Nat)
    (firstWrite : WriteResult) (turns : Nat → ForwardTurn) : Prop :=
  ∃ result, ForwardEnds query body rdBufLen firstWrite turns result ∧
      ∀ worker, result = .done worker → worker = toForward query body

/-! ## Segments of the body -/

@[simp] theorem segment_zero (body : Nat → UInt8) (start : Nat) : segment body start 0 = [] := rfl

@[simp] theorem length_segment (body : Nat → UInt8) (start count : Nat) :
    (segment body start count).length = count := by
  simp [segment]

theorem segment_append (body : Nat → UInt8) (start first second : Nat) :
    segment body start first ++ segment body (start + first) second =
      segment body start (first + second) := by
  simp [segment, List.range_add, Nat.add_assoc]

/-! ## One turn -/

theorem sysWrite_of_not_breaks {write : WriteResult} {data : List UInt8}
    (whole : write.breaks data.length = false) : sysWrite write data = (data, true) := by
  cases write with
  | through => rfl
  | broken sent =>
    have enough : data.length ≤ sent := by simpa [WriteResult.breaks] using whole
    simp [sysWrite, WriteResult.sent, WriteResult.breaks, enough]

/-- The number of bytes that a turn can read, were the body long enough -/
def ForwardTurn.offered (turn : ForwardTurn) : Nat :=
  match turn.read with
  | .ready count => min count dataBufSize
  | _ => 0

section Turn

variable {query : ForwardQuery} {body : Nat → UInt8} {turn : ForwardTurn}
  {state : ForwardState}

theorem forwardTurn_of_le (whole : query.contentLength ≤ state.nRead) :
    forwardTurn query body turn state = .ended (.done state.worker) := by
  simp [forwardTurn, Nat.not_lt.mpr whole]

theorem forwardTurn_fails (more : state.nRead < query.contentLength)
    (stops : turn.read = .failed ∨ turn.write.breaks
          (min turn.offered (query.contentLength - state.nRead))) :
    ∃ worker, forwardTurn query body turn state = .ended (.failData worker) := by
  rcases stops with failed | breaks
  · exact ⟨state.worker, by simp [forwardTurn, more, failed]⟩
  · cases read : turn.read with
    | ready count =>
      have same : min count (min dataBufSize (query.contentLength - state.nRead)) =
            min turn.offered (query.contentLength - state.nRead) := by
        simp [ForwardTurn.offered, read, Nat.min_assoc]
      simp [forwardTurn, more, read, same, sysWrite, breaks]
    | interrupted =>
      cases write : turn.write <;>
        simp [ForwardTurn.offered, read, write, WriteResult.breaks] at breaks
    | failed => exact ⟨state.worker, by simp [forwardTurn, more, read]⟩

theorem forwardTurn_goesOn (more : state.nRead < query.contentLength) (reads : turn.read ≠ .failed)
    (writes : turn.write.breaks (min turn.offered (query.contentLength - state.nRead)) = false) :
    forwardTurn query body turn state = .running {
        nRead := min (state.nRead + turn.offered) query.contentLength
        worker :=
          state.worker ++ segment body state.nRead
              (min turn.offered (query.contentLength - state.nRead)) } := by
  cases read : turn.read with
  | ready count =>
    have same : min count (min dataBufSize (query.contentLength - state.nRead)) =
          min turn.offered (query.contentLength - state.nRead) := by
      simp [ForwardTurn.offered, read, Nat.min_assoc]
    have sum : state.nRead + min turn.offered (query.contentLength - state.nRead) =
          min (state.nRead + turn.offered) query.contentLength := by
      omega
    have sent :=
      @sysWrite_of_not_breaks turn.write (segment body state.nRead
          (min turn.offered (query.contentLength - state.nRead)))
        (by simpa using writes)
    simp [forwardTurn, more, read, same, sent, sum]
  | interrupted =>
    have nothing : turn.offered = 0 := by simp [ForwardTurn.offered, read]
    have least : min state.nRead query.contentLength = state.nRead := Nat.min_eq_left more.le
    simp [forwardTurn, more, read, nothing, least]
  | failed => exact absurd read reads

end Turn

/-! ## The loop -/

/-- The bytes that the first turns can read, were the body long enough -/
def offered (turns : Nat → ForwardTurn) (count : Nat) : Nat :=
  ∑ index ∈ Finset.range count, (turns index).offered

/--
A turn comes that ends the loop: before it the whole body could be read, or its
read fails, or its write breaks before the end of what is read.
-/
def LoopStops (contentLength rdBufLen : Nat) (turns : Nat → ForwardTurn) : Prop :=
  ∃ count, contentLength ≤ rdBufLen + offered turns count ∨ (turns count).read = .failed ∨
      (turns count).write.breaks (min (turns count).offered
          (contentLength - (rdBufLen + offered turns count)))

section Loop

variable {query : ForwardQuery} {body : Nat → UInt8}
  {turns : Nat → ForwardTurn} {rdBufLen : Nat}

theorem forward_running (within : rdBufLen ≤ query.contentLength) {count : Nat}
    {state : ForwardState}
    (reached : afterTurns (fun count => forwardTurn query body (turns count))
        ⟨rdBufLen, segment body 0 rdBufLen⟩ count = .running state) :
    state.nRead = min (rdBufLen + offered turns count) query.contentLength ∧
      state.worker = segment body 0 state.nRead := by
  refine @running_induction _ _ _ _ (fun count state =>
      state.nRead = min (rdBufLen + offered turns count) query.contentLength ∧
        state.worker = segment body 0 state.nRead)
    ⟨by simp [offered, within], rfl⟩ ?_ _ _ reached
  intro count state after ⟨read, sent⟩ went
  by_cases more : state.nRead < query.contentLength
  · by_cases stops : (turns count).read = .failed ∨ (turns count).write.breaks
            (min (turns count).offered (query.contentLength - state.nRead))
    · obtain ⟨worker, ended⟩ := @forwardTurn_fails _ body _ _ more stops
      simp [ended] at went
    · rw [not_or, Bool.not_eq_true] at stops
      rw [forwardTurn_goesOn more stops.1 stops.2] at went
      cases went
      refine ⟨?_, ?_⟩
      · simp only [offered, Finset.sum_range_succ] at read ⊢
        omega
      · have sum : state.nRead + min (turns count).offered (query.contentLength - state.nRead) =
              min (state.nRead + (turns count).offered)
                query.contentLength := by
          omega
        have joined :=
          segment_append body 0 state.nRead
            (min (turns count).offered (query.contentLength - state.nRead))
        rw [Nat.zero_add, sum] at joined
        rw [sent, joined]
  · rw [forwardTurn_of_le (Nat.not_lt.mp more)] at went
    cases went

theorem forward_done (within : rdBufLen ≤ query.contentLength) {worker : List UInt8}
    (done : EndsWith (fun count => forwardTurn query body (turns count))
        ⟨rdBufLen, segment body 0 rdBufLen⟩ (.done worker)) :
    worker = segment body 0 query.contentLength := by
  obtain ⟨count, state, reached, last⟩ := done.last
  obtain ⟨read, sent⟩ := forward_running within reached
  by_cases more : state.nRead < query.contentLength
  · by_cases stops : (turns count).read = .failed ∨ (turns count).write.breaks
            (min (turns count).offered (query.contentLength - state.nRead))
    · obtain ⟨other, ended⟩ := @forwardTurn_fails _ body _ _ more stops
      simp [ended] at last
    · rw [not_or, Bool.not_eq_true] at stops
      simp [forwardTurn_goesOn more stops.1 stops.2] at last
  · rw [forwardTurn_of_le (Nat.not_lt.mp more)] at last
    cases last
    have whole : state.nRead = query.contentLength := by omega
    rw [sent, whole]

theorem forward_ends_iff (within : rdBufLen ≤ query.contentLength) : (∃ result,
      EndsWith (fun count => forwardTurn query body (turns count))
        ⟨rdBufLen, segment body 0 rdBufLen⟩ result) ↔
      LoopStops query.contentLength rdBufLen turns := by
  constructor
  · rintro ⟨result, ends⟩
    obtain ⟨count, state, reached, last⟩ := ends.last
    obtain ⟨read, sent⟩ := forward_running within reached
    by_cases more : state.nRead < query.contentLength
    · have here : rdBufLen + offered turns count = state.nRead := by omega
      refine ⟨count, .inr ?_⟩
      by_contra stops
      rw [here, not_or, Bool.not_eq_true] at stops
      simp [forwardTurn_goesOn more stops.1 stops.2] at last
    · exact ⟨count, .inl (by omega)⟩
  · rintro ⟨count, stops⟩
    cases there : afterTurns (fun count => forwardTurn query body (turns count))
          ⟨rdBufLen, segment body 0 rdBufLen⟩ count with
    | ended result => exact ⟨result, count, there⟩
    | running state =>
      obtain ⟨read, sent⟩ := forward_running within there
      by_cases more : state.nRead < query.contentLength
      · have here : rdBufLen + offered turns count = state.nRead := by omega
        have stops := stops.resolve_left (by omega)
        rw [here] at stops
        obtain ⟨worker, ended⟩ := @forwardTurn_fails _ body _ _ more stops
        exact ⟨.failData worker, endsWith_of_turn there ended⟩
      · exact ⟨.done state.worker, endsWith_of_turn there (forwardTurn_of_le (Nat.not_lt.mp more))⟩

theorem forward_overrun (beyond : query.contentLength < rdBufLen) {result : Forwarded}
    (ends : EndsWith (fun count => forwardTurn query body (turns count))
        ⟨rdBufLen, segment body 0 rdBufLen⟩ result) : result = .done (segment body 0 rdBufLen) :=
  ends.unique (@endsWith_of_turn _ _ _ _ 0 _ _ afterTurns_zero (forwardTurn_of_le beyond.le))

end Loop

/-! ## The whole forwarding -/

section Whole

variable {query : ForwardQuery} {body : Nat → UInt8} {rdBufLen : Nat}
  {firstWrite : WriteResult} {turns : Nat → ForwardTurn}

theorem forwardStart_of_nothing (nothing : query.contentLength = 0 ∨ query.contentRead = true) :
    forwardStart query body rdBufLen firstWrite = .ended (.done []) := by
  rcases nothing with none | read
  · simp [forwardStart, none]
  · simp [forwardStart, read]

theorem forwardStart_of_breaks (body : Nat → UInt8)
    (something : 0 < query.contentLength ∧ query.contentRead = false)
    (breaks : firstWrite.breaks rdBufLen = true) :
    ∃ worker, forwardStart query body rdBufLen firstWrite = .ended (.failData worker) := by
  have positive : 0 < rdBufLen := by
    cases firstWrite <;> simp [WriteResult.breaks] at breaks
    omega
  simp [forwardStart, something, positive, sysWrite, breaks]

theorem forwardStart_of_passes (something : 0 < query.contentLength ∧ query.contentRead = false)
    (passes : firstWrite.breaks rdBufLen = false) :
    forwardStart query body rdBufLen firstWrite = .running ⟨rdBufLen, segment body 0 rdBufLen⟩ := by
  have sent := @sysWrite_of_not_breaks firstWrite (segment body 0 rdBufLen) (by simpa using passes)
  by_cases positive : 0 < rdBufLen
  · simp [forwardStart, something, positive, sent]
  · have zero : rdBufLen = 0 := by omega
    simp [forwardStart, something, zero]

end Whole

/--
The body of a request is forwarded exactly when there is nothing to forward, or
the first write breaks, or the header was not followed by more than the body
and a turn of the loop comes that ends it.
-/
theorem forwardsBody_iff (query : ForwardQuery) (body : Nat → UInt8) (rdBufLen : Nat)
    (firstWrite : WriteResult) (turns : Nat → ForwardTurn) :
    ForwardsBody query body rdBufLen firstWrite turns ↔ query.contentLength = 0 ∨
        query.contentRead = true ∨
        firstWrite.breaks rdBufLen = true ∨
        (rdBufLen ≤ query.contentLength ∧ LoopStops query.contentLength rdBufLen turns) := by
  by_cases nothing : query.contentLength = 0 ∨ query.contentRead = true
  · have holds : ForwardsBody query body rdBufLen firstWrite turns := by
      refine ⟨.done [], by simp [ForwardEnds, forwardStart_of_nothing nothing], ?_⟩
      rintro worker ⟨⟩
      rcases nothing with none | read
      · simp [toForward, none]
      · simp [toForward, read]
    rw [← or_assoc]
    exact iff_of_true holds (.inl nothing)
  · obtain ⟨length, unread⟩ := not_or.mp nothing
    have something : 0 < query.contentLength ∧ query.contentRead = false :=
      ⟨Nat.pos_of_ne_zero length, Bool.eq_false_iff.mpr unread⟩
    have wanted : toForward query body = segment body 0 query.contentLength := by
      simp [toForward, something.2]
    simp only [length, unread, Bool.false_eq_true, false_or]
    by_cases breaks : firstWrite.breaks rdBufLen = true
    · obtain ⟨worker, failed⟩ := forwardStart_of_breaks body something breaks
      have holds : ForwardsBody query body rdBufLen firstWrite turns :=
        ⟨.failData worker, by simp [ForwardEnds, failed], by simp⟩
      exact iff_of_true holds (.inl breaks)
    · have begun :=
        @forwardStart_of_passes _ body _ _ something (Bool.eq_false_iff.mpr breaks)
      simp only [breaks, Bool.false_eq_true, false_or, ForwardsBody, ForwardEnds, begun, wanted]
      by_cases within : rdBufLen ≤ query.contentLength
      · rw [← @forward_ends_iff _ body _ _ within]
        constructor
        · rintro ⟨result, ends, -⟩
          exact ⟨within, result, ends⟩
        · rintro ⟨-, result, ends⟩
          refine ⟨result, ends, ?_⟩
          rintro worker rfl
          exact forward_done within ends
      · refine iff_of_false ?_ (by simp [within])
        rintro ⟨result, ends, sent⟩
        have early := forward_overrun (Nat.not_le.mp within) ends
        have lengths := congrArg List.length (sent _ early)
        simp only [length_segment] at lengths
        omega

theorem closed_client_spins :
    ¬ ForwardsBody { contentLength := 1, contentRead := false } (fun _ => 0) 0
        .through (fun _ => ⟨.ready 0, .through⟩) := by
  rintro ⟨result, ends, -⟩
  have stops : LoopStops 1 0 (fun _ => ⟨.ready 0, .through⟩) :=
    (@forward_ends_iff { contentLength := 1, contentRead := false } _ _ _
      (Nat.zero_le _)).mp ⟨result, ends⟩
  obtain ⟨count, stops⟩ := stops
  simp [offered, ForwardTurn.offered, WriteResult.breaks] at stops

end Agar.Web
