import Mathlib.Algebra.Order.Ring.Nat
import Slirc.Connection.Grammar
import Slirc.Connection.Impl
import Slirc.Network.Functions

/-!
# What `set_endpoint` sets

* `setting_setEndpoint`: the hostname, the port and the choice of SSL, by the endpoint it is given.
* `setting_render`: an address that is written out and set is the address that was written
  (`Address`). An unknown protocol is rejected.
* `setting_suffix_iff`, `setting_address_iff`: a path behind a port, and an address that ends in
  digits, are misread. `setting_port_iff`: a port of more than 32 bits is wrapped around.
* `LateFailure`: how a call throws that has stored the hostname and the port already: SSL is
  refused, `network::service()` throws, or the constructor of the transport does.
  `setEndpoint_atomic_iff`: when such a call leaves what was there.
-/

namespace Slirc.Connection

open Endpoint

/-- What a call of `set_endpoint` leaves. -/
structure Setting where
  hostname : List Char
  port : UInt32
  /-- Whether SSL is selected, unless it was refused. -/
  ssl : Option Bool
  deriving DecidableEq

/-- SSL is selected if there is an SSL stream, and no plain socket, which would be preferred. -/
def Impl.selectsSsl (s : Impl) : Bool := s.ssl.isSome && s.socket.isNone

def Setting.of : EStateM.Result Fault Impl Unit → Setting
  | .ok _ s => ⟨s.hostname, s.port, some s.selectsSsl⟩
  | .error _ s => ⟨s.hostname, s.port, none⟩

/-- The setting of an invalid endpoint. -/
def Setting.invalid : Setting := ⟨['0', '.', '0', '.', '0', '.', '0'], 0, some false⟩

/-- The setting of an endpoint. Without SSL support, SSL is refused. -/
def Setting.ofEndpoint (sslSupport : Bool) (e : Endpoint) : Setting :=
  ⟨e.hostname, e.port, if e.useSsl && !sslSupport then none else some e.useSsl⟩

section SetEndpoint

variable {s : Impl} {endpoint : List Char} {newPort : UInt32} {e : Endpoint}

theorem setEndpointWith_refused (faults : EmplaceFaults) (sslSupport : Bool)
    (h : s.curstate ≠ .disconnected) :
    setEndpointWith faults sslSupport endpoint newPort s = .error .alreadyConnected s := by
  rw [setEndpointWith, Program.get_bind, if_pos h]
  rfl

theorem setEndpointWith_invalid (faults : EmplaceFaults) (sslSupport : Bool)
    (h : s.curstate = .disconnected) (hparse : parse endpoint newPort = none) :
    setEndpointWith faults sslSupport endpoint newPort s = .ok ()
      { s with hostname := ['0', '.', '0', '.', '0', '.', '0'], port := 0, ssl := none } := by
  rw [setEndpointWith, Program.get_bind, if_neg (not_not.mpr h), hparse]
  rfl

theorem setEndpoint_invalid (sslSupport : Bool) (h : s.curstate = .disconnected)
    (hparse : parse endpoint newPort = none) :
    setEndpoint sslSupport endpoint newPort s = .ok ()
      { s with hostname := ['0', '.', '0', '.', '0', '.', '0'], port := 0, ssl := none } :=
  setEndpointWith_invalid {} sslSupport h hparse

/-- Where a call throws once the hostname and the port are stored. -/
inductive LateFailure where
  | sslRefused
  /-- `network::service()` throws. -/
  | noService
  /-- The constructor of the socket or of the SSL stream throws. -/
  | notConstructed
  deriving DecidableEq, Repr

/-- By what is asked for, whether there is a service, and whether the constructor throws. -/
def lateFailure (sslSupport refused broken : Bool) (e : Endpoint) : Option LateFailure :=
  if e.useSsl && !sslSupport then some .sslRefused
  else if refused then some .noService
  else if broken then some .notConstructed
  else none

/-- What the failure leaves. A plain endpoint has torn the SSL stream down by then. -/
def LateFailure.leaves (e : Endpoint) (s : Impl) : LateFailure → Impl
  | .sslRefused => { s with hostname := e.hostname, port := e.port }
  | .noService =>
    { s with hostname := e.hostname, port := e.port, ssl := if e.useSsl then s.ssl else none }
  | .notConstructed =>
    { s with
      hostname := e.hostname
      port := e.port
      ssl := none
      socket := if e.useSsl then s.socket else none }

/-- What a call stores that does not throw. -/
def Impl.withEndpoint (s : Impl) (e : Endpoint) : Impl :=
  { s with
    hostname := e.hostname
    port := e.port
    ssl := if e.useSsl then some {} else none
    socket := if e.useSsl then none else some {} }

/-- **What a call does for an endpoint**: it stores it, or throws. -/
theorem setEndpointWith_named (faults : EmplaceFaults) (sslSupport : Bool)
    (h : s.curstate = .disconnected) (hparse : parse endpoint newPort = some e) :
    match lateFailure sslSupport faults.service.isSome faults.construct.isSome e with
    | none => setEndpointWith faults sslSupport endpoint newPort s = .ok () (s.withEndpoint e)
    | some f => ∃ x, setEndpointWith faults sslSupport endpoint newPort s = .error x (f.leaves e s)
    := by
  rw [setEndpointWith, Program.get_bind, if_neg (not_not.mpr h), hparse]
  obtain ⟨service, construct⟩ := faults
  obtain ⟨useSsl, hostname, port⟩ := e
  cases useSsl <;> cases sslSupport <;> cases service <;> cases construct <;>
    first | exact rfl | exact ⟨_, rfl⟩

theorem setEndpoint_accepted {sslSupport : Bool} (h : s.curstate = .disconnected)
    (hparse : parse endpoint newPort = some e) (hssl : e.useSsl = true → sslSupport = true) :
    setEndpoint sslSupport endpoint newPort s = .ok () (s.withEndpoint e) := by
  have hnone : lateFailure sslSupport (Option.isSome (EmplaceFaults.service {}))
      (Option.isSome (EmplaceFaults.construct {})) e = none := by
    cases huse : e.useSsl <;> simp_all [lateFailure]
  have hnamed := setEndpointWith_named {} sslSupport h hparse
  rw [hnone] at hnamed
  exact hnamed

theorem setEndpoint_unsupported (h : s.curstate = .disconnected)
    (hparse : parse endpoint newPort = some e) (hssl : e.useSsl = true) :
    ∃ what, setEndpoint false endpoint newPort s =
      .error (.logicError what) { s with hostname := e.hostname, port := e.port } := by
  rw [setEndpoint, setEndpointWith, Program.get_bind, if_neg (not_not.mpr h), hparse]
  simp only [hssl, if_true]
  exact ⟨_, rfl⟩

theorem setting_setEndpoint (sslSupport : Bool) (h : s.curstate = .disconnected) :
    Setting.of (setEndpoint sslSupport endpoint newPort s) =
      ((parse endpoint newPort).map (Setting.ofEndpoint sslSupport)).getD .invalid := by
  cases hparse : parse endpoint newPort with
  | none =>
    rw [setEndpoint_invalid sslSupport h hparse]
    rfl
  | some e =>
    by_cases hssl : e.useSsl = true → sslSupport = true
    · rw [setEndpoint_accepted h hparse hssl]
      cases huse : e.useSsl with
      | false => simp [Setting.of, Setting.ofEndpoint, Impl.selectsSsl, Impl.withEndpoint, huse]
      | true =>
        simp [Setting.of, Setting.ofEndpoint, Impl.selectsSsl, Impl.withEndpoint, huse, hssl huse]
    · obtain ⟨huse, hsupport⟩ := Classical.not_imp.mp hssl
      obtain rfl : sslSupport = false := by simpa using hsupport
      obtain ⟨what, heq⟩ := setEndpoint_unsupported h hparse huse
      rw [heq]
      simp [Setting.of, Setting.ofEndpoint, huse]

end SetEndpoint

/-! ## Failures -/

/-- What a failure has stored or destroyed is what was there. -/
def LateFailure.Unnoticed (e : Endpoint) (s : Impl) : LateFailure → Prop
  | .sslRefused => e.hostname = s.hostname ∧ e.port = s.port
  | .noService => e.hostname = s.hostname ∧ e.port = s.port ∧ (e.useSsl = false → s.ssl = none)
  | .notConstructed =>
    e.hostname = s.hostname ∧ e.port = s.port ∧ s.ssl = none ∧ (e.useSsl = false → s.socket = none)

/-- The hostname, the port and the transport are the same. -/
def Impl.SameEndpoint (s s' : Impl) : Prop :=
  s'.hostname = s.hostname ∧ s'.port = s.port ∧ s'.socket = s.socket ∧ s'.ssl = s.ssl

theorem LateFailure.unnoticed_iff (f : LateFailure) (e : Endpoint) (s : Impl) :
    s.SameEndpoint (f.leaves e s) ↔ f.Unnoticed e s := by
  unfold Impl.SameEndpoint leaves Unnoticed
  cases f <;> cases e.useSsl <;> grind

/-- **A call that throws changes nothing, exactly if it is refused at once or what it has stored by
then is what was there**: in every state of the network service, whether or not its thread can be
started and the transport can be constructed. -/
theorem setEndpoint_atomic_iff (sslSupport : Bool) (n : NetworkService)
    (startFault construct : Option Fault) (s : Impl) (endpoint : List Char) (newPort : UInt32) :
    (∀ x s', setEndpointWith { service := n.refusal startFault, construct } sslSupport endpoint
        newPort s = .error x s' → s.SameEndpoint s') ↔
      s.curstate ≠ .disconnected ∨
        ∀ e, Names endpoint newPort e →
          ∀ f ∈ lateFailure sslSupport (n.refuses startFault) construct.isSome e,
            f.Unnoticed e s := by
  by_cases hcur : s.curstate = .disconnected
  · rw [or_iff_right (not_not.mpr hcur)]
    cases hparse : parse endpoint newPort with
    | none =>
      rw [setEndpointWith_invalid _ sslSupport hcur hparse]
      refine iff_of_true (fun x s' hx => ?_) fun e he => ?_
      · cases hx
      · cases hparse.symm.trans (parse_names.mpr he)
    | some e =>
      have hnamed := setEndpointWith_named { service := n.refusal startFault, construct } sslSupport
        hcur hparse
      rw [n.refusal_isSome] at hnamed
      have honly : ∀ e', Names endpoint newPort e' → e' = e := fun e' he' =>
        Option.some.inj ((parse_names.mpr he').symm.trans hparse)
      cases hlate : lateFailure sslSupport (n.refuses startFault) construct.isSome e with
      | none =>
        rw [hlate] at hnamed
        rw [hnamed]
        refine iff_of_true (fun x s' hx => ?_) fun e' he' f hf => ?_
        · cases hx
        · rw [honly e' he', hlate] at hf
          cases hf
      | some f =>
        rw [hlate] at hnamed
        obtain ⟨x, heq⟩ := hnamed
        rw [heq]
        constructor
        · intro hsame e' he' f' hf'
          rw [honly e' he', hlate] at hf'
          cases hf'
          rw [honly e' he']
          exact (f.unnoticed_iff e s).mp (hsame x _ rfl)
        · intro hall x' s' hx
          cases hx
          exact (f.unnoticed_iff e s).mpr (hall e (parse_names.mp hparse) f hlate)
  · rw [setEndpointWith_refused _ sslSupport hcur]
    refine iff_of_true (fun x s' hx => ?_) (.inl hcur)
    cases hx
    exact ⟨rfl, rfl, rfl, rfl⟩

/-- Without SSL support, `ircs://h` is refused, and a plain connection to it is what the next
`connect` opens. And while the library is unloaded a plain endpoint is refused, and the SSL stream
is gone. -/
theorem setEndpoint_not_atomic :
    (∃ s, setEndpoint false ['i', 'r', 'c', ':', '/', '/', 'g'] 0 {} = .ok () s ∧
      ∃ x s', setEndpoint false ['i', 'r', 'c', 's', ':', '/', '/', 'h'] 0 s = .error x s' ∧
        s.hostname = ['g'] ∧ s.port = 6667 ∧ s'.hostname = ['h'] ∧ s'.port = 6697 ∧
        s'.socket = some {}) ∧
    ∃ s, setEndpoint true ['i', 'r', 'c', 's', ':', '/', '/', 'g'] 0 {} = .ok () s ∧
      ∃ x s', setEndpointWith
          { service := NetworkService.refusal { internalServiceStopping := true } none } true
          ['i', 'r', 'c', ':', '/', '/', 'h'] 0 s = .error x s' ∧
        s.hostname = ['g'] ∧ s.ssl = some {} ∧ s'.hostname = ['h'] ∧ s'.ssl = none :=
  ⟨⟨_, rfl, _, _, rfl, rfl, rfl, rfl, rfl, rfl⟩, _, rfl, _, _, rfl, rfl, rfl, rfl, rfl⟩

/-! ## What is ignored, and what is misread -/

/-- A port has no `'@'`, so it stands behind the userinfo. -/
theorem endsInPort_append {pre server : List Char} (hpre : pre = [] ∨ ∃ u, pre = u ++ ['@']) :
    EndsInPort (pre ++ server) ↔ EndsInPort server := by
  constructor
  · rintro ⟨host, ds, heq, hds⟩
    obtain rfl | ⟨u, rfl⟩ := hpre
    · exact ⟨host, ds, heq, hds⟩
    obtain ⟨l, hhost, hserver⟩ | ⟨l, hhost, hserver⟩ := List.append_eq_append_iff.mp heq
    · exact ⟨l, ds, hserver, hds⟩
    · obtain rfl | ⟨l, c, rfl⟩ := List.eq_nil_or_concat l
      · exact ⟨[], ds, hserver.symm, hds⟩
      · -- the port would reach into the userinfo
        rw [List.concat_eq_append, ← List.append_assoc] at hhost
        obtain rfl : '@' = c := by simpa using (List.append_inj' hhost rfl).2
        have hin : '@' ∈ ':' :: ds := by simp [hserver]
        exact absurd hin (not_mem_port (by decide) rfl hds)
  · rintro ⟨host, ds, rfl, hds⟩
    exact ⟨pre ++ host, ds, (List.append_assoc ..).symm, hds⟩

section Suffix

variable {proto auth : List Char} {useSsl : Bool}

/-- **A path, a query or a fragment is ignored, exactly if there is no port in front of it.** -/
theorem setting_suffix_iff (sslSupport : Bool) (newPort : UInt32) {s : Impl}
    (h : s.curstate = .disconnected) (hproto : protocol proto = some useSsl)
    (hauth : ∀ c ∈ auth, c ∉ delimiters) {d : Char} (hd : d ∈ delimiters) (suffix : List Char) :
    Setting.of (setEndpoint sslSupport (proto ++ schemeEnd ++ auth ++ d :: suffix) newPort s) =
        Setting.of (setEndpoint sslSupport (proto ++ schemeEnd ++ auth) newPort s) ↔
      ¬EndsInPort auth := by
  obtain ⟨pre, server, rfl, hpre, hserver⟩ := exists_userinfo auth
  have hdelimited := Written.url hproto hpre hserver hauth
    (by simpa using hd : ∀ c ∈ (d :: suffix).head?, c ∈ delimiters)
  have hplain := Written.url hproto hpre hserver hauth (by simp : ∀ c ∈ [].head?, c ∈ delimiters)
  rw [List.append_nil] at hplain
  rw [endsInPort_append hpre, setting_setEndpoint sslSupport h, setting_setEndpoint sslSupport h,
    parse_portless hdelimited (.inl (by simp))]
  by_cases hport : EndsInPort server
  · obtain ⟨host, ds, rfl, hds⟩ := id hport
    rw [parse_ported hplain hds, if_neg (by simp)]
    refine iff_of_false (fun heq => ?_) (not_not.mpr hport)
    have hname := congrArg Setting.hostname heq
    by_cases hhost : host = []
    · rw [if_pos hhost, hhost] at hname
      cases hname
    · rw [if_neg hhost] at hname
      exact absurd (congrArg List.length hname) (by simp [Setting.ofEndpoint])
  · rw [parse_portless hplain (.inr hport)]
    exact iff_of_true rfl hport

end Suffix

theorem setting_suffix_path :
    Setting.of (setEndpoint true (['i', 'r', 'c'] ++ schemeEnd ++ ['h'] ++ ['/', 'x']) 0 {}) =
        Setting.of (setEndpoint true (['i', 'r', 'c'] ++ schemeEnd ++ ['h']) 0 {}) ↔
      ¬EndsInPort ['h'] :=
  setting_suffix_iff true 0 rfl rfl (by simp [delimiters]) (by simp [delimiters]) ['x']

/-- The port is read as a part of the server. -/
theorem setting_suffix_misread :
    Setting.of (setEndpoint true ['i', 'r', 'c', ':', '/', '/', 'h', ':', '8', '/'] 0 {}) ≠
      Setting.of (setEndpoint true ['i', 'r', 'c', ':', '/', '/', 'h', ':', '8'] 0 {}) := by
  decide

section Plain

variable {s : Impl} {endpoint server ds : List Char}

theorem written_plain (h : '/' ∉ endpoint) : Written endpoint false endpoint [] :=
  .plain fun hin => h (hin.subset (by simp [schemeEnd]))

/-- **An address with at least two `':'` is taken as a whole, exactly if it does not end in a group
of decimal digits**, which would be its port. -/
theorem setting_address_iff (sslSupport : Bool) (newPort : UInt32) (h : s.curstate = .disconnected)
    (hcolons : 2 ≤ endpoint.count ':')
    (hchars : ∀ c ∈ endpoint, c ∉ ['[', ']', '/', '@', '?', '#']) :
    (Setting.of (setEndpoint sslSupport endpoint newPort s)).hostname = endpoint ∧
        (Setting.of (setEndpoint sslSupport endpoint newPort s)).port =
          (if newPort ≠ 0 then newPort else 6667) ↔
      ¬EndsInPort endpoint := by
  have hw := written_plain fun hin => hchars _ hin (by simp)
  rw [setting_setEndpoint sslSupport h]
  by_cases hport : EndsInPort endpoint
  · obtain ⟨host, ds, rfl, hds⟩ := id hport
    have hhost : host ≠ [] := by
      rintro rfl
      have hnone : ds.count ':' = 0 := List.count_eq_zero.mpr fun hin => by cases hds _ hin
      rw [List.nil_append, List.count_cons_self, hnone] at hcolons
      omega
    rw [parse_ported hw hds, if_neg hhost]
    refine iff_of_false (fun heq => ?_) (not_not.mpr hport)
    exact absurd (congrArg List.length heq.1) (by simp [Setting.ofEndpoint])
  · have hne : endpoint ≠ [] := by
      rintro rfl
      cases hcolons
    rw [parse_portless hw (.inr hport), if_neg hne]
    exact iff_of_true ⟨rfl, rfl⟩ hport

theorem setting_address_hex :
    (Setting.of (setEndpoint true [':', ':', 'a'] 0 {})).hostname = [':', ':', 'a'] ∧
        (Setting.of (setEndpoint true [':', ':', 'a'] 0 {})).port =
          (if (0 : UInt32) ≠ 0 then 0 else 6667) ↔
      ¬EndsInPort [':', ':', 'a'] :=
  setting_address_iff true 0 rfl (by decide) (by simp)

/-- The last group of `::1` is its port. -/
theorem setting_address_misread :
    Setting.of (setEndpoint true [':', ':', '1'] 0 {}) = ⟨[':'], 1, some false⟩ ∧
      ¬((Setting.of (setEndpoint true [':', ':', '1'] 0 {})).hostname = [':', ':', '1'] ∧
        (Setting.of (setEndpoint true [':', ':', '1'] 0 {})).port = 6667) := by
  decide

theorem portValue_toNat (hds : ∀ c ∈ ds, c.isDigit = true) :
    (portValue ds).toNat = min (Nat.ofDigitChars 10 ds 0) (2 ^ 63 - 1) % 2 ^ 32 := by
  rw [portValue, strtol_digits hds, UInt32.ofInt, UInt32.toNat_ofNat', longMax]
  omega

/-- **A written port is stored, or the endpoint rejected, exactly if it fits into 32 bits**, or if
it is a multiple of 2^32 and the server is the one of a rejected endpoint. -/
theorem setting_port_iff (sslSupport : Bool) (h : s.curstate = .disconnected) (hne : server ≠ [])
    (hchars : ∀ c ∈ server, c ∉ [':', '/', '@', '?', '#']) (hds : ∀ c ∈ ds, c.isDigit = true) :
    (Setting.of (setEndpoint sslSupport (server ++ ':' :: ds) 0 s)).port.toNat =
          Nat.ofDigitChars 10 ds 0 ∨
        (Setting.of (setEndpoint sslSupport (server ++ ':' :: ds) 0 s)).hostname =
            ['0', '.', '0', '.', '0', '.', '0'] ∧
          (Setting.of (setEndpoint sslSupport (server ++ ':' :: ds) 0 s)).port = 0 ↔
      Nat.ofDigitChars 10 ds 0 < 2 ^ 32 ∨
        server = ['0', '.', '0', '.', '0', '.', '0'] ∧ Nat.ofDigitChars 10 ds 0 < 2 ^ 63 ∧
          2 ^ 32 ∣ Nat.ofDigitChars 10 ds 0 := by
  have hslash : '/' ∉ server ++ ':' :: ds := by
    intro hin
    rcases List.mem_append.mp hin with hin | hin
    · exact hchars _ hin (by simp)
    · exact not_mem_port (by decide) rfl hds hin
  have hw := written_plain hslash
  rw [setting_setEndpoint sslSupport h, parse_ported hw hds, if_neg hne]
  show (portValue ds).toNat = _ ∨ server = _ ∧ portValue ds = 0 ↔ _
  rw [← UInt32.toNat_inj, portValue_toNat hds]
  generalize Nat.ofDigitChars 10 ds 0 = n
  have hzero : (0 : UInt32).toNat = 0 := rfl
  rw [hzero]
  by_cases hserver : server = ['0', '.', '0', '.', '0', '.', '0']
  · simp only [hserver, true_and]
    omega
  · simp only [hserver, false_and, or_false]
    omega

theorem setting_port_6667 :
    (Setting.of (setEndpoint true ['h', ':', '6', '6', '6', '7'] 0 {})).port.toNat =
          Nat.ofDigitChars 10 ['6', '6', '6', '7'] 0 ∨
        (Setting.of (setEndpoint true ['h', ':', '6', '6', '6', '7'] 0 {})).hostname =
            ['0', '.', '0', '.', '0', '.', '0'] ∧
          (Setting.of (setEndpoint true ['h', ':', '6', '6', '6', '7'] 0 {})).port = 0 ↔
      Nat.ofDigitChars 10 ['6', '6', '6', '7'] 0 < 2 ^ 32 ∨
        ['h'] = ['0', '.', '0', '.', '0', '.', '0'] ∧
          Nat.ofDigitChars 10 ['6', '6', '6', '7'] 0 < 2 ^ 63 ∧
            2 ^ 32 ∣ Nat.ofDigitChars 10 ['6', '6', '6', '7'] 0 := by
  have hds : ∀ c ∈ ['6', '6', '6', '7'], c.isDigit = true := by simp [Char.isDigit]
  have hiff := setting_port_iff (s := {}) true rfl (by simp : ['h'] ≠ []) (by simp) hds
  exact hiff

/-- The port 2^32 + 1 is stored as 1. -/
theorem setting_port_wrapped :
    Setting.of (setEndpoint true
        ['h', ':', '4', '2', '9', '4', '9', '6', '7', '2', '9', '7'] 0 {}) =
      ⟨['h'], 1, some false⟩ ∧
    Nat.ofDigitChars 10 ['4', '2', '9', '4', '9', '6', '7', '2', '9', '7'] 0 = 4294967297 := by
  decide

end Plain

/-! ## Addresses -/

/-- The known protocols. -/
inductive Protocol where
  | irc | tcp | ircs | ssl
  deriving DecidableEq, Repr

def Protocol.name : Protocol → List Char
  | .irc => ['i', 'r', 'c']
  | .tcp => ['t', 'c', 'p']
  | .ircs => ['i', 'r', 'c', 's']
  | .ssl => ['s', 's', 'l']

def Protocol.useSsl : Protocol → Bool
  | .irc | .tcp => false
  | .ircs | .ssl => true

theorem Protocol.known (p : Protocol) : protocol p.name = some p.useSsl := by
  cases p <;> rfl

theorem protocol_unknown {proto : List Char} (h : ∀ p : Protocol, proto ≠ p.name) :
    protocol proto = none := by
  have hplain : ¬(proto = ['i', 'r', 'c'] ∨ proto = ['t', 'c', 'p']) :=
    not_or.mpr ⟨h .irc, h .tcp⟩
  have hssl : ¬(proto = ['i', 'r', 'c', 's'] ∨ proto = ['s', 's', 'l']) :=
    not_or.mpr ⟨h .ircs, h .ssl⟩
  rw [protocol, if_neg hplain, if_neg hssl]

/-- What stands in front of the server in a URL. -/
structure UrlPrefix where
  protocol : Protocol
  userinfo : Option (List Char)
  userinfo_chars : ∀ u ∈ userinfo, ∀ c ∈ u, c ∉ delimiters

/-- A server, perhaps with a port, perhaps in a URL. A server with a `':'` is in brackets. -/
structure Address where
  url : Option UrlPrefix
  server : List Char
  port : Option (List Char)
  server_ne_nil : server ≠ []
  server_chars : ∀ c ∈ server, c ≠ '@' ∧ c ∉ delimiters
  server_colon : ':' ∉ server ∨ server.getLast? = some ']'
  port_digits : ∀ ds ∈ port, ds ≠ [] ∧ (∀ c ∈ ds, c.isDigit = true) ∧
    Nat.ofDigitChars 10 ds 0 ≤ 65535

namespace UrlPrefix

variable (u : UrlPrefix)

/-- The userinfo, with the `'@'` behind it. -/
def auth : List Char := (u.userinfo.map (· ++ ['@'])).getD []

def render : List Char := u.protocol.name ++ schemeEnd ++ u.auth

theorem auth_split : u.auth = [] ∨ ∃ i, u.auth = i ++ ['@'] := by
  unfold auth
  cases u.userinfo with
  | none => exact .inl rfl
  | some i => exact .inr ⟨i, rfl⟩

theorem auth_chars : ∀ c ∈ u.auth, c ∉ delimiters := by
  intro c hc
  cases huser : u.userinfo with
  | none => simp [auth, huser] at hc
  | some i =>
    simp only [auth, huser, Option.map_some, Option.getD_some, List.mem_append,
      List.mem_singleton] at hc
    rcases hc with hc | rfl
    · exact u.userinfo_chars i huser c hc
    · decide

end UrlPrefix

namespace Address

variable (a : Address)

def useSsl : Bool := a.url.any fun u => u.protocol.useSsl

/-- The server, with the port behind it. -/
def serverPort : List Char := a.server ++ (a.port.map (':' :: ·)).getD []

def render : List Char := (a.url.map UrlPrefix.render).getD [] ++ a.serverPort

theorem serverPort_chars : ∀ c ∈ a.serverPort, c ≠ '@' ∧ c ∉ delimiters := by
  intro c hc
  rcases List.mem_append.mp hc with hc | hc
  · exact a.server_chars c hc
  · cases hport : a.port with
    | none => simp [hport] at hc
    | some ds =>
      simp only [hport, Option.map_some, Option.getD_some, List.mem_cons] at hc
      rcases hc with rfl | hc
      · decide
      · have hdigit := (a.port_digits ds hport).2.1 c hc
        constructor
        · rintro rfl
          cases hdigit
        · intro hin
          simp only [delimiters, List.mem_cons, List.not_mem_nil, or_false] at hin
          rcases hin with rfl | rfl | rfl <;> cases hdigit

theorem written : Written a.render a.useSsl a.serverPort [] := by
  have hchars := a.serverPort_chars
  have hat : '@' ∉ a.serverPort := fun hin => (hchars _ hin).1 rfl
  unfold render useSsl
  cases a.url with
  | none => exact written_plain fun hin => (hchars _ hin).2 (by simp [delimiters])
  | some u =>
    have hauth : ∀ c ∈ u.auth ++ a.serverPort, c ∉ delimiters := by
      intro c hc
      rcases List.mem_append.mp hc with hc | hc
      · exact u.auth_chars c hc
      · exact (hchars c hc).2
    have hw := Written.url u.protocol.known u.auth_split hat hauth
      (by simp : ∀ c ∈ [].head?, c ∈ delimiters)
    simpa [UrlPrefix.render] using hw

/-- Neither a bracket nor a server without `':'` ends in a port. -/
theorem server_not_endsInPort : ¬EndsInPort a.server := by
  rintro ⟨host, ds, heq, hds⟩
  rcases a.server_colon with hno | hlast
  · exact hno (by simp [heq])
  · have hin : ']' ∈ ':' :: ds := by
      rw [heq, List.getLast?_append_cons] at hlast
      exact List.mem_of_getLast? hlast
    exact not_mem_port (by decide) rfl hds hin

/-- **Parsing an address that was written out yields the address.** -/
theorem parse_render (newPort : UInt32) : parse a.render newPort =
    some ⟨a.useSsl, a.server,
      override newPort ((a.port.map portValue).getD (defaultPort a.useSsl))⟩ := by
  have hw := a.written
  unfold serverPort at hw
  cases hport : a.port with
  | none =>
    rw [hport, Option.map_none, Option.getD_none, List.append_nil] at hw
    rw [parse_portless hw (.inr a.server_not_endsInPort), if_neg a.server_ne_nil]
    rfl
  | some ds =>
    rw [hport, Option.map_some, Option.getD_some] at hw
    rw [parse_ported hw (a.port_digits ds hport).2.1, if_neg a.server_ne_nil]
    rfl

/-- The port of an address: the explicit one, or the one that is written, or the default. -/
theorem port_render (newPort : UInt32) :
    (override newPort ((a.port.map portValue).getD (defaultPort a.useSsl))).toNat =
      if newPort ≠ 0 then newPort.toNat
      else (a.port.map (Nat.ofDigitChars 10 · 0)).getD (if a.useSsl then 6697 else 6667) := by
  unfold override
  split
  · rfl
  cases hport : a.port with
  | none =>
    simp only [Option.map_none, Option.getD_none]
    cases a.useSsl <;> rfl
  | some ds =>
    obtain ⟨-, hds, hle⟩ := a.port_digits ds hport
    simp only [Option.map_some, Option.getD_some, portValue_toNat hds]
    omega

end Address

/-- **Setting an address that was written out sets the address**, and any other protocol is
rejected. -/
theorem setting_render (sslSupport : Bool) (newPort : UInt32) {s : Impl}
    (h : s.curstate = .disconnected) :
    (∀ a : Address,
      (Setting.of (setEndpoint sslSupport a.render newPort s)).hostname = a.server ∧
      (Setting.of (setEndpoint sslSupport a.render newPort s)).port.toNat =
        (if newPort ≠ 0 then newPort.toNat
         else (a.port.map (Nat.ofDigitChars 10 · 0)).getD (if a.useSsl then 6697 else 6667)) ∧
      (sslSupport = true →
        (Setting.of (setEndpoint sslSupport a.render newPort s)).ssl = some a.useSsl)) ∧
    ∀ proto rest : List Char, ¬schemeEnd <:+: proto → (∀ p : Protocol, proto ≠ p.name) →
      Setting.of (setEndpoint sslSupport (proto ++ schemeEnd ++ rest) newPort s) =
        ⟨['0', '.', '0', '.', '0', '.', '0'], 0, some false⟩ := by
  constructor
  · intro a
    rw [setting_setEndpoint sslSupport h, a.parse_render]
    refine ⟨rfl, a.port_render newPort, fun hsupport => ?_⟩
    simp [Setting.ofEndpoint, hsupport]
  · intro proto rest hproto hunknown
    have hparse : parse (proto ++ schemeEnd ++ rest) newPort = none := by
      have hfind : Text.find (proto ++ schemeEnd ++ rest) [':', '/', '/'] 0 = some proto.length :=
        Text.find_append rest (by decide) hproto
      have hsubstr : Text.substr (proto ++ schemeEnd ++ rest) 0 proto.length = proto := by
        simp [Text.substr]
      rw [parse, serverPort, hfind]
      dsimp only
      rw [hsubstr, protocol_unknown hunknown]
      rfl
    rw [setting_setEndpoint sslSupport h, hparse]
    rfl

/-- `ssl://u:@[::1]:0990` -/
def bracketed : Address where
  url := some ⟨.ssl, some ['u', ':'], by simp [delimiters]⟩
  server := ['[', ':', ':', '1', ']']
  port := some ['0', '9', '9', '0']
  server_ne_nil := by simp
  server_chars := by simp [delimiters]
  server_colon := .inr rfl
  port_digits := by simp [Char.isDigit, Nat.ofDigitChars]

theorem setting_render_bracketed :
    (Setting.of (setEndpoint true bracketed.render 0 {})).hostname = ['[', ':', ':', '1', ']'] ∧
      (Setting.of (setEndpoint true bracketed.render 0 {})).port.toNat = 990 ∧
      (Setting.of (setEndpoint true bracketed.render 0 {})).ssl = some true := by
  obtain ⟨hhost, hport, hssl⟩ := (setting_render true 0 (s := {}) rfl).1 bracketed
  exact ⟨hhost, hport, hssl rfl⟩

end Slirc.Connection
