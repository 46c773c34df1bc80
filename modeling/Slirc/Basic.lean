/-!
# Event ids, and what can go wrong

* `IdType`: `event::id_type`, an enum type together with the number of its value. The default value
  stands for no event at all; every id made from an enum value is valid.
* `Fault`: what ends a call other than by returning: an exception of the library, one of a
  component it uses, or undefined behaviour.
-/

namespace Slirc

/-- An exception that leaves a call, or undefined behaviour. -/
inductive Fault where
  /-- An iterator behind the end, a wrapped size, an empty optional that is read. -/
  | undefined
  /-- `exceptions::invalid_event_id` -/
  | invalidEventId
  /-- `exceptions::already_connected` -/
  | alreadyConnected
  /-- `std::logic_error` -/
  | logicError (what : String)
  /-- `boost::system::system_error` -/
  | systemError (what : String)
  /-- An exception of a handler or a consumer, which the library passes on. -/
  | foreign (n : Nat)
  /-- Not an outcome of the code: the run was cut off before the call ended. -/
  | cutOff
  deriving DecidableEq, Repr

/-- The enum types that are registered as event ids: `std::type_index`. -/
inductive TypeIndex where
  /-- `apis::event_manager::events` -/
  | eventManagerEvents
  /-- `apis::connection::state` -/
  | connectionState
  /-- `apis::connection::events` -/
  | connectionEvents
  /-- `modules::connection::events` -/
  | connectionErrors
  /-- An enum of a user, registered by `SLIRC_REGISTER_EVENT_ID_ENUM`. -/
  | user (n : Nat)
  deriving DecidableEq, Repr

/-- `event::id_type`. No constructor makes an id with a number but without a type. -/
structure IdType where
  index : Option TypeIndex
  id : UInt32
  wf : index = none → id = 0
  deriving DecidableEq, Repr

namespace IdType

/-- `id_type()`: the invalid id. -/
def invalid : IdType := ⟨none, 0, fun _ => rfl⟩

instance : Inhabited IdType := ⟨invalid⟩

/-- `id_type(IdType id)` for a registered enum. -/
def ofEnum (index : TypeIndex) (id : UInt32) : IdType := ⟨some index, id, nofun⟩

/-- `operator bool` -/
def isValid (i : IdType) : Bool := i != invalid

@[simp] theorem isValid_invalid : invalid.isValid = false := by decide

end IdType

end Slirc
