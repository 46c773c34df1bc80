import Slirc.Lib.Text

/-!
# Endpoints (`impl::set_endpoint` in `src/modules/connection.cpp`)

`set_endpoint` finds the server and the port in a string, which is `server[:port]` or
`protocol://[userinfo@]server[:port][/path][?query][#fragment]`.

* `serverPort`: the protocol, and where the server and its port stand.
* `writtenPort`: the port at the end of this range.
* `parse`: the endpoint of a string, unless it is invalid.

`parse_hostname`: the server name of an endpoint is a piece of the string, and not empty.
-/

namespace Slirc.Connection

/-- `default_port_nonssl` -/
def defaultPortNonssl : UInt32 := 6667

/-- `default_port_ssl` -/
def defaultPortSsl : UInt32 := 6697

/-! ## `strtol` -/

/-- The characters that `strtol` skips. -/
def isspace (c : Char) : Bool := c = ' ' || (9 ≤ c.toNat && c.toNat ≤ 13)

/-- The value of the digits at the beginning of a string. -/
def leadingDigits (s : List Char) : Nat :=
  (s.takeWhile Char.isDigit).foldl (fun n c => 10 * n + (c.toNat - 48)) 0

/-- `LONG_MAX`, for a `long` of 64 bits. -/
def longMax : Int := 9223372036854775807

/-- `strtol(s, &end, 10)`: a value that does not fit is clamped. -/
def strtol (s : List Char) : Int :=
  match s.dropWhile isspace with
  | '-' :: digits => max (-(leadingDigits digits : Int)) (-longMax - 1)
  | '+' :: digits => min (leadingDigits digits : Int) longMax
  | digits => min (leadingDigits digits : Int) longMax

/-! ## The parts of an endpoint -/

/-- `use_ssl`, `server_port_begin` and `server_port_end`. -/
structure ServerPort where
  useSsl : Bool
  first : Nat
  last : Nat
  deriving DecidableEq, Repr

/-- What `set_endpoint` stores. -/
structure Endpoint where
  useSsl : Bool
  hostname : List Char
  port : UInt32
  deriving DecidableEq, Repr

namespace Endpoint

/-- The protocols, and whether they use SSL. -/
def protocol (proto : List Char) : Option Bool :=
  if proto = ['i', 'r', 'c'] ∨ proto = ['t', 'c', 'p'] then some false
  else if proto = ['i', 'r', 'c', 's'] ∨ proto = ['s', 's', 'l'] then some true
  else none

/-- Where the server and its port stand: a string with `://` is a URL. -/
def serverPort (endpoint : List Char) : Option ServerPort :=
  match Text.find endpoint [':', '/', '/'] 0 with
  | none => some { useSsl := false, first := 0, last := endpoint.length }
  | some pos => do
    let useSsl ← protocol (Text.substr endpoint 0 pos)
    -- chop off the protocol, and the path, query or fragment
    let first := pos + 3
    let last := (Text.findFirstOf endpoint ['/', '?', '#'] first).getD endpoint.length
    -- chop off the authentication info
    match Text.rfind endpoint '@' last with
    | some pos => some { useSsl, first := if first ≤ pos then pos + 1 else first, last }
    | none => some { useSsl, first, last }

def digits : List Char := ['0', '1', '2', '3', '4', '5', '6', '7', '8', '9']

/-- The position of the `':'` of a written port. -/
def portColon (endpoint : List Char) (r : ServerPort) : Option Nat :=
  (Text.findLastNotOf endpoint digits r.last).filter fun pos =>
    decide (r.first ≤ pos) && endpoint[pos]? == some ':'

/-- The port that is written in the endpoint. -/
def writtenPort (endpoint : List Char) (pos : Nat) : UInt32 :=
  .ofInt (strtol (endpoint.drop (pos + 1)))

/-- The default port, which a port in the endpoint overrides, which an explicit one overrides. -/
def usePort (endpoint : List Char) (newPort : UInt32) (r : ServerPort) : UInt32 :=
  let default := if r.useSsl then defaultPortSsl else defaultPortNonssl
  let port := ((portColon endpoint r).map (writtenPort endpoint)).getD default
  if newPort ≠ 0 then newPort else port

/-- The endpoint of a string and an explicit port (0 for none). -/
def parse (endpoint : List Char) (newPort : UInt32) : Option Endpoint := do
  let r ← serverPort endpoint
  let last := (portColon endpoint r).getD r.last
  if last ≤ r.first then none
  else
    some {
      useSsl := r.useSsl
      hostname := Text.substr endpoint r.first (last - r.first)
      port := usePort endpoint newPort r }

theorem serverPort_last {endpoint : List Char} {r : ServerPort} (h : serverPort endpoint = some r) :
    r.last ≤ endpoint.length := by
  unfold serverPort at h
  split at h
  · cases h
    exact Nat.le_refl _
  · obtain ⟨useSsl, -, h⟩ := Option.bind_eq_some_iff.mp h
    have hlast : ∀ first, (Text.findFirstOf endpoint ['/', '?', '#'] first).getD endpoint.length ≤
        endpoint.length := by
      intro first
      cases hf : Text.findFirstOf endpoint ['/', '?', '#'] first with
      | none => exact Nat.le_refl _
      | some pos => exact (Text.search_eq_some.mp hf).2.1.2
    dsimp only at h
    split at h <;> cases h <;> exact hlast _

theorem portColon_lt {endpoint : List Char} {r : ServerPort} {pos : Nat}
    (h : portColon endpoint r = some pos) : pos < endpoint.length := by
  obtain ⟨-, hc⟩ := Option.filter_eq_some_iff.mp h
  simp only [Bool.and_eq_true, beq_iff_eq] at hc
  exact (List.getElem?_eq_some_iff.mp hc.2).1

/-- **The server name of an endpoint is a piece of the string**, and not empty. -/
theorem parse_hostname {endpoint : List Char} {newPort : UInt32} {e : Endpoint}
    (h : parse endpoint newPort = some e) : e.hostname ≠ [] ∧ e.hostname <:+: endpoint := by
  obtain ⟨r, hr, h⟩ := Option.bind_eq_some_iff.mp h
  dsimp only at h
  split at h
  · cases h
  · rename_i hlt
    cases h
    have hlast : (portColon endpoint r).getD r.last ≤ endpoint.length := by
      cases hc : portColon endpoint r with
      | none => exact serverPort_last hr
      | some pos => exact Nat.le_of_lt (portColon_lt hc)
    refine ⟨fun hnil => ?_, ?_⟩
    · have hlen := congrArg List.length hnil
      simp only [Text.substr, List.length_take, List.length_drop, List.length_nil] at hlen
      omega
    · exact (List.take_prefix _ _).isInfix.trans (List.drop_suffix _ _).isInfix

example : parse ['s', 's', 'l', ':', '/', '/', 'x', '@', 'h', ':', '9', '0'] 0 =
    some { useSsl := true, hostname := ['h'], port := 90 } := by decide

end Endpoint

end Slirc.Connection
