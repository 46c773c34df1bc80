import Slirc.Basic
import Slirc.Lib.Vec

/-!
# The id queue of an event (`src/event.cpp`)

An event keeps the ids it is queued as in one vector, `queued_ids`; popping an id only moves
`next_id_index`, so the ids in front of it are dead and their slots are reused. The pending ids are
the range `[begin() + next_id_index, end())`.

* `prepareAppendQueue` decides what queueing one id does, `appendToQueueUnchecked` stores the new
  ids on one of four paths.
* `queueAs`, `queueAsRange`, `unqueue`, `isQueuedAs` and `popNextQueuedId` are the public calls.

An operation that would form an iterator behind `end()`, or wrap a size, has no result (`none`).
The vector's capacity is its size and any number of spare slots (`spare`), chosen afresh at each
call: no growth policy is assumed.
-/

namespace Slirc

/-- `event::queuing_position` -/
inductive QueuingPosition where
  | atBack | atFront
  deriving DecidableEq, Repr

/-- `event::queuing_strategy` -/
inductive QueuingStrategy where
  | discard | replace | duplicate
  deriving DecidableEq, Repr

/-- `event::queuing_result` -/
inductive QueuingResult where
  | discarded | queued | replaced | invalid
  deriving DecidableEq, Repr

/-- `queued_ids` and `next_id_index` of an event. -/
structure IdQueue where
  queuedIds : List IdType
  nextIdIndex : Nat
  deriving DecidableEq, Repr

namespace IdQueue

/-- `event::event`: a new event is queued as its original id. -/
def make (originalId : IdType) : Except Fault IdQueue :=
  if originalId.isValid then .ok { queuedIds := [originalId], nextIdIndex := 0 }
  else .error .invalidEventId

/-- The pending ids. -/
def pending (e : IdQueue) : Option (List IdType) := Vec.rangeFrom e.queuedIds e.nextIdIndex

/-- The ids that were popped and still lie in the vector. -/
def popped (e : IdQueue) : List IdType := e.queuedIds.take e.nextIdIndex

/-- `event::prepare_append_queue`: the result, the queue and the ids to add. -/
def prepareAppendQueue (e : IdQueue) (addIds : List IdType) (newid : IdType)
    (strategy : QueuingStrategy) : Option (QueuingResult × IdQueue × List IdType) :=
  if newid.isValid = false then some (.invalid, e, addIds)
  else
    match strategy with
    | .discard => do
      let range ← Vec.rangeFrom e.queuedIds e.nextIdIndex
      if newid ∈ range then some (.discarded, e, addIds)
      else some (.queued, e, addIds ++ [newid])
    | .duplicate => some (.queued, e, addIds ++ [newid])
    | .replace => do
      let kept ← Vec.removeFrom e.queuedIds e.nextIdIndex (· == newid)
      -- `new_end != queued_ids.end()`: something was removed
      if kept.length ≠ e.queuedIds.length then
        some (.replaced, { e with queuedIds := kept }, addIds ++ [newid])
      else some (.queued, e, addIds ++ [newid])

/-- `event::append_to_queue_unchecked` -/
def appendToQueueUnchecked (e : IdQueue) (spare : Nat) (addIds : List IdType)
    (position : QueuingPosition) : Option IdQueue :=
  if addIds = [] then some e
  else
    match position with
    | .atFront =>
      if addIds.length ≤ e.nextIdIndex then do
        -- enough space in front of the existing queue
        let queuedIds ← Vec.copyTo addIds e.queuedIds (e.nextIdIndex - addIds.length)
        some { queuedIds := queuedIds, nextIdIndex := e.nextIdIndex - addIds.length }
      else do
        -- append the current queue to the new one and swap
        let newSize ← Vec.sub (addIds.length + e.queuedIds.length) e.nextIdIndex
        let range ← Vec.rangeFrom e.queuedIds e.nextIdIndex
        let queuedIds ← Vec.copyTo range (Vec.resize addIds newSize default) addIds.length
        some { queuedIds := queuedIds, nextIdIndex := 0 }
    | .atBack => do
      let capacity := e.queuedIds.length + spare
      let free ← Vec.sub capacity e.queuedIds.length
      let e ←
        if 0 < e.nextIdIndex ∧ free < addIds.length then do
          -- reorganize the pending ids to the beginning
          let range ← Vec.rangeFrom e.queuedIds e.nextIdIndex
          let copied ← Vec.copyTo range e.queuedIds 0
          some { queuedIds := Vec.resize copied range.length default, nextIdIndex := 0 }
        else some e
      some { e with queuedIds := e.queuedIds ++ addIds }

/-- `event::queue_as(id, strategy, position)` -/
def queueAs (e : IdQueue) (id : IdType) (strategy : QueuingStrategy) (position : QueuingPosition)
    (spare : Nat) : Option (QueuingResult × IdQueue) := do
  let (result, e, addIds) ← e.prepareAppendQueue [] id strategy
  let e ← if addIds ≠ [] then e.appendToQueueUnchecked spare addIds position else some e
  some (result, e)

/-- A run of the loop of the range form: the queue, the ids to add, the results that were handed to
the callback, and whether the callback threw. -/
structure RangeLoop where
  queue : IdQueue
  addIds : List IdType
  results : List QueuingResult
  threw : Bool

/-- The loop of the range form of `queue_as`. `callback n result` says whether `result_callback`
returns for the `n`th element (it throws otherwise). -/
def prepareRange (callback : Nat → QueuingResult → Bool) (strategy : QueuingStrategy) :
    RangeLoop → List IdType → Option RangeLoop
  | l, [] => some l
  | l, id :: ids => do
    let (result, queue, addIds) ← l.queue.prepareAppendQueue l.addIds id strategy
    let results := l.results ++ [result]
    if callback l.results.length result then
      prepareRange callback strategy { queue, addIds, results, threw := false } ids
    else some { queue, addIds, results, threw := true }

/-- `event::queue_as(begin, end, strategy, position, result_callback)`: the results that the
callback got, whether it threw, and the queue. -/
def queueAsRange (e : IdQueue) (ids : List IdType) (strategy : QueuingStrategy)
    (position : QueuingPosition) (callback : Nat → QueuingResult → Bool) (spare : Nat) :
    Option ((List QueuingResult × Bool) × IdQueue) := do
  let l ← prepareRange callback strategy
    { queue := e, addIds := [], results := [], threw := false } ids
  let e ←
    if l.threw then some l.queue else l.queue.appendToQueueUnchecked spare l.addIds position
  some ((l.results, l.threw), e)

/-- `event::unqueue(matcher)`. It searches the vector from its beginning. -/
def unqueueMatcher (e : IdQueue) (matcher : IdType → Bool) : Bool × IdQueue :=
  let kept := e.queuedIds.filter fun x => !matcher x
  -- `it == queued_ids.end()`: nothing was removed
  if kept.length = e.queuedIds.length then (false, e) else (true, { e with queuedIds := kept })

/-- `event::unqueue(id)` -/
def unqueue (e : IdQueue) (id : IdType) : Bool × IdQueue :=
  let kept := e.queuedIds.filter fun x => !(x == id)
  if kept.length = e.queuedIds.length then (false, e) else (true, { e with queuedIds := kept })

/-- `event::is_queued_as(id)` -/
def isQueuedAs (e : IdQueue) (id : IdType) : Option Bool := do
  let range ← Vec.rangeFrom e.queuedIds e.nextIdIndex
  some (decide (id ∈ range))

/-- `event::is_queued_as(matcher)`: the answer, and the ids that were offered to the matcher. The
matcher may depend on the ids it was offered before. -/
def isQueuedAsMatcher (e : IdQueue) (matcher : List IdType → IdType → Bool) :
    Option (Bool × List IdType) := do
  let range ← Vec.rangeFrom e.queuedIds e.nextIdIndex
  some (Vec.findIf matcher [] range)

/-- `event::pop_next_queued_id` -/
def popNextQueuedId (e : IdQueue) : IdType × IdQueue :=
  if h : e.nextIdIndex < e.queuedIds.length then
    (e.queuedIds[e.nextIdIndex], { e with nextIdIndex := e.nextIdIndex + 1 })
  else (.invalid, e)

end IdQueue

/-- One call of `queue_as`, single or with a range whose callback only records its arguments. -/
inductive QueueCall where
  | single (id : IdType) (strategy : QueuingStrategy) (position : QueuingPosition) (spare : Nat)
  | range (ids : List IdType) (strategy : QueuingStrategy) (position : QueuingPosition)
      (spare : Nat)
  deriving DecidableEq, Repr

namespace QueueCall

/-- The ids of a call, with the single form as a range of one id. -/
def ids : QueueCall → List IdType
  | .single id _ _ _ => [id]
  | .range ids _ _ _ => ids

def strategy : QueueCall → QueuingStrategy
  | .single _ strategy _ _ => strategy
  | .range _ strategy _ _ => strategy

def position : QueueCall → QueuingPosition
  | .single _ _ position _ => position
  | .range _ _ position _ => position

end QueueCall

/-- The results that a call of `queue_as` returns or hands to its callback, and the queue. -/
def IdQueue.call (e : IdQueue) : QueueCall → Option (List QueuingResult × IdQueue)
  | .single id strategy position spare =>
    (e.queueAs id strategy position spare).map fun r => ([r.1], r.2)
  | .range ids strategy position spare =>
    (e.queueAsRange ids strategy position (fun _ _ => true) spare).map fun r => (r.1.1, r.2)

end Slirc
