import Mathlib.Data.List.TakeWhile
import Slirc.Connection.Endpoint

/-!
# The endpoints that `set_endpoint` accepts

An endpoint is a server with an optional port, alone or in a URL (`Written`). The port is what
stands behind the last `':'`, if it is all digits (`EndsInPort`); behind a path, a query or a
fragment no port is found.

* `parse_portless`, `parse_ported`: what a string is parsed as, by what is written in it.
* `parse_names`: an endpoint is accepted exactly if it names a server (`Names`), and is parsed as
  this server.
-/

namespace Slirc.Connection.Endpoint

/-- The end of a protocol. -/
def schemeEnd : List Char := [':', '/', '/']

/-- What a path, a query or a fragment begins with. -/
def delimiters : List Char := ['/', '?', '#']

/-- The string ends in a `':'` and digits, perhaps none. -/
def EndsInPort (s : List Char) : Prop :=
  ∃ host ds, s = host ++ ':' :: ds ∧ ∀ c ∈ ds, c.isDigit = true

/-- The port of a string of digits. -/
def portValue (ds : List Char) : UInt32 := .ofInt (strtol ds)

/-- The default port, by whether SSL is used. -/
def defaultPort (useSsl : Bool) : UInt32 := if useSsl then defaultPortSsl else defaultPortNonssl

/-- An explicit port overrides the one of the endpoint. -/
def override (newPort port : UInt32) : UInt32 := if newPort ≠ 0 then newPort else port

/-- A string with no `://` in it, or the server part of a URL: with the protocol in front of it and
perhaps the userinfo, and perhaps a suffix behind it. -/
inductive Written : List Char → Bool → List Char → List Char → Prop
  | plain {server : List Char} : ¬schemeEnd <:+: server → Written server false server []
  | url {proto pre server suffix : List Char} {useSsl : Bool} : protocol proto = some useSsl →
    pre = [] ∨ (∃ userinfo, pre = userinfo ++ ['@']) → '@' ∉ server →
    (∀ c ∈ pre ++ server, c ∉ delimiters) → (∀ c ∈ suffix.head?, c ∈ delimiters) →
    Written (proto ++ schemeEnd ++ (pre ++ server) ++ suffix) useSsl server suffix

/-- The endpoint that a string and an explicit port (0 for none) name. -/
inductive Names (endpoint : List Char) (newPort : UInt32) : Endpoint → Prop
  | portless {useSsl : Bool} {host suffix : List Char} : Written endpoint useSsl host suffix →
    host ≠ [] → suffix ≠ [] ∨ ¬EndsInPort host →
    Names endpoint newPort ⟨useSsl, host, override newPort (defaultPort useSsl)⟩
  | ported {useSsl : Bool} {host ds : List Char} : Written endpoint useSsl (host ++ ':' :: ds) [] →
    host ≠ [] → (∀ c ∈ ds, c.isDigit = true) →
    Names endpoint newPort ⟨useSsl, host, override newPort (portValue ds)⟩

/-! ## Digits -/

theorem isDigit_bounds {c : Char} (h : c.isDigit = true) : 48 ≤ c.toNat ∧ c.toNat ≤ 57 := by
  simpa [Char.isDigit, UInt32.le_iff_toNat_le] using h

theorem mem_digits {c : Char} : c ∈ digits ↔ c.isDigit = true := by
  constructor
  · intro h
    simp only [digits, List.mem_cons, List.not_mem_nil, or_false] at h
    rcases h with rfl | rfl | rfl | rfl | rfl | rfl | rfl | rfl | rfl | rfl <;> rfl
  · intro h
    obtain ⟨hlo, hhi⟩ := isDigit_bounds h
    rw [← Char.ofNat_toNat c]
    generalize c.toNat = n at hlo hhi
    have hn : n = 48 ∨ n = 49 ∨ n = 50 ∨ n = 51 ∨ n = 52 ∨ n = 53 ∨ n = 54 ∨ n = 55 ∨ n = 56 ∨
        n = 57 := by omega
    rcases hn with rfl | rfl | rfl | rfl | rfl | rfl | rfl | rfl | rfl | rfl <;> decide

/-- A port is a `':'` and digits. -/
theorem not_mem_port {c : Char} {ds : List Char} (hcolon : c ≠ ':') (hdigit : c.isDigit = false)
    (hds : ∀ x ∈ ds, x.isDigit = true) : c ∉ ':' :: ds := by
  intro hin
  rcases List.mem_cons.mp hin with heq | hin
  · exact hcolon heq
  · exact absurd (hds c hin) (by simp [hdigit])

theorem leadingDigits_eq {ds : List Char} (h : ∀ c ∈ ds, c.isDigit = true) :
    leadingDigits ds = Nat.ofDigitChars 10 ds 0 := by
  rw [leadingDigits, List.takeWhile_eq_self_iff.mpr h, Nat.ofDigitChars_eq_foldl]
  rfl

/-- Digits are neither skipped nor signs. -/
theorem strtol_digits {ds : List Char} (h : ∀ c ∈ ds, c.isDigit = true) :
    strtol ds = min (Nat.ofDigitChars 10 ds 0 : Int) longMax := by
  rw [← leadingDigits_eq h]
  cases ds with
  | nil => rfl
  | cons c ds =>
    have hc := h c List.mem_cons_self
    obtain ⟨hlo, hhi⟩ := isDigit_bounds hc
    have hspace : ¬isspace c = true := by
      have hblank : c ≠ ' ' := by rintro rfl; cases hc
      simp [isspace, hblank]
      omega
    rw [strtol, List.dropWhile_cons_of_neg hspace]
    split
    · rename_i heq
      cases heq
      cases hc
    · rename_i heq
      cases heq
      cases hc
    · rfl

/-! ## The port of a server -/

section PortColon

variable (front : List Char) {server host ds suffix : List Char} {useSsl : Bool}

/-- The search for the port begins at the delimiter, and stops there. -/
theorem portColon_delimited {d : Char} (hd : d ∈ delimiters) (s : List Char) :
    portColon (front ++ (server ++ d :: s))
      { useSsl, first := front.length, last := front.length + server.length } = none := by
  have hndig : d ∉ digits ∧ d ≠ ':' := by
    simp only [delimiters, List.mem_cons, List.not_mem_nil, or_false] at hd
    rcases hd with rfl | rfl | rfl <;> decide
  have hfind : Text.findLastNotOf (front ++ (server ++ d :: s)) digits
      (front.length + server.length) = some (front ++ server).length := by
    have hsearch := Text.searchBack_append (q := fun c => decide (c ∉ digits))
      (a := front ++ server) (b := []) (t := s) (decide_eq_true hndig.1) (by simp)
      (Nat.le_of_eq List.length_append) (.inr (by simp))
    simpa [Text.findLastNotOf] using hsearch
  rw [portColon, hfind]
  simp [Option.filter, hndig.2]

theorem portColon_ported (hds : ∀ c ∈ ds, c.isDigit = true) :
    portColon (front ++ (host ++ ':' :: ds))
      { useSsl, first := front.length, last := front.length + (host ++ ':' :: ds).length } =
        some (front.length + host.length) := by
  have hfind : Text.findLastNotOf (front ++ (host ++ ':' :: ds)) digits
      (front.length + (host ++ ':' :: ds).length) = some (front ++ host).length := by
    have hle : (front ++ host).length ≤ front.length + (host ++ ':' :: ds).length := by simp
    have hsearch := Text.searchBack_append (q := fun c => decide (c ∉ digits)) (b := ds) (t := [])
      (c := ':') rfl (fun c hc => by simp [mem_digits, hds c hc]) hle (.inl rfl)
    simpa [Text.findLastNotOf] using hsearch
  rw [portColon, hfind]
  simp [Option.filter]

theorem portColon_portless (h : ¬EndsInPort server) :
    portColon (front ++ server)
      { useSsl, first := front.length, last := front.length + server.length } = none := by
  refine Option.eq_none_iff_forall_ne_some.mpr fun pos hpos => h ?_
  obtain ⟨hfind, hcolon⟩ := Option.filter_eq_some_iff.mp hpos
  obtain ⟨l, c, t, heq, -, ht, rfl⟩ := Text.searchBack_split (by simp) hfind
  simp only [heq, Bool.and_eq_true, decide_eq_true_eq, beq_iff_eq, Nat.le_refl,
    List.getElem?_append_right, Nat.sub_self, List.getElem?_cons_zero, Option.some.injEq] at hcolon
  obtain ⟨hle, rfl⟩ := hcolon
  have hdigits : ∀ x ∈ t, x.isDigit = true := fun x hx => by
    simpa [mem_digits] using ht x hx
  obtain ⟨host, -, hserver⟩ | ⟨l', hfront, hserver⟩ := List.append_eq_append_iff.mp heq
  · exact ⟨host, t, hserver, hdigits⟩
  · obtain rfl : l' = [] := by
      refine List.eq_nil_of_length_eq_zero ?_
      have hlen := congrArg List.length hfront
      rw [List.length_append] at hlen
      omega
    exact ⟨[], t, hserver.symm, hdigits⟩

end PortColon

/-! ## The range of the server -/

theorem protocol_known {proto : List Char} {useSsl : Bool} (h : protocol proto = some useSsl) :
    ':' ∉ proto ∧ '@' ∉ proto := by
  unfold protocol at h
  split at h
  · rename_i hproto
    rcases hproto with rfl | rfl <;> decide
  split at h
  · rename_i hproto
    rcases hproto with rfl | rfl <;> decide
  · cases h

theorem not_schemeEnd {proto : List Char} (h : ':' ∉ proto) : ¬schemeEnd <:+: proto :=
  fun hin => h (hin.subset (by simp [schemeEnd]))

section Url

variable {proto rest pre server suffix : List Char} {useSsl : Bool}

theorem find_schemeEnd (h : protocol proto = some useSsl) (rest : List Char) :
    Text.find (proto ++ schemeEnd ++ rest) schemeEnd 0 = some proto.length :=
  Text.find_append rest (by decide) (not_schemeEnd (protocol_known h).1)

/-- The end of the server and its port: a delimiter, or the end of the string. -/
theorem findFirstOf_delimiters (front : List Char) {auth suffix : List Char}
    (hauth : ∀ c ∈ auth, c ∉ delimiters) (hsuffix : ∀ c ∈ suffix.head?, c ∈ delimiters) :
    (Text.findFirstOf (front ++ (auth ++ suffix)) delimiters front.length).getD
      (front ++ (auth ++ suffix)).length = front.length + auth.length := by
  have hout : ∀ c ∈ auth, decide (c ∈ delimiters) = false := fun c hc => by simp [hauth c hc]
  cases suffix with
  | nil =>
    rw [List.append_nil, Text.findFirstOf,
      Text.search_of_not (by rw [List.drop_left]; exact hout), Option.getD_none,
      List.length_append]
  | cons d s =>
    rw [Text.findFirstOf,
      Text.search_append front s hout (decide_eq_true (hsuffix d rfl)), Option.getD_some]

/-- The search for `'@'` begins at the character behind the server, which is a delimiter. -/
theorem no_userinfo (hserver : '@' ∉ server) (hsuffix : ∀ c ∈ suffix.head?, c ∈ delimiters) :
    ∀ c ∈ server ++ suffix.take 1, (c == '@') = false := by
  intro c hc
  rw [beq_eq_false_iff_ne]
  rintro rfl
  rcases List.mem_append.mp hc with hc | hc
  · exact hserver hc
  · rw [List.take_one, Option.mem_toList] at hc
    exact absurd (hsuffix _ hc) (by decide)

theorem rfind_userinfo (front : List Char) {userinfo : List Char} (hserver : '@' ∉ server)
    (hsuffix : ∀ c ∈ suffix.head?, c ∈ delimiters) :
    Text.rfind (front ++ (userinfo ++ ['@'] ++ server ++ suffix)) '@'
      (front.length + (userinfo ++ ['@'] ++ server).length) =
        some (front.length + userinfo.length) := by
  have hle : (front ++ userinfo).length ≤
      front.length + (userinfo ++ ['@'] ++ server).length := by
    simp
  have hsearch := Text.searchBack_append (q := (· == '@')) (t := suffix.drop 1) (c := '@') rfl
    (no_userinfo hserver hsuffix) hle (by cases suffix <;> simp; omega)
  rw [List.append_assoc server, List.take_append_drop] at hsearch
  simpa [Text.rfind] using hsearch

theorem rfind_none {front : List Char} (hfront : '@' ∉ front) (hserver : '@' ∉ server)
    (hsuffix : ∀ c ∈ suffix.head?, c ∈ delimiters) :
    Text.rfind (front ++ (server ++ suffix)) '@' (front.length + server.length) = none := by
  refine Text.searchBack_none fun c hc => ?_
  rw [Nat.add_assoc, List.take_length_add_append, List.take_length_add_append] at hc
  rcases List.mem_append.mp hc with hc | hc
  · exact beq_eq_false_iff_ne.mpr fun h => hfront (h ▸ hc)
  · exact no_userinfo hserver hsuffix c hc

/-- The range of the server in a URL, by the search for the userinfo. -/
theorem serverPort_url (hproto : protocol proto = some useSsl) {auth : List Char}
    (hauth : ∀ c ∈ auth, c ∉ delimiters) (hsuffix : ∀ c ∈ suffix.head?, c ∈ delimiters) :
    serverPort (proto ++ schemeEnd ++ (auth ++ suffix)) =
      some { useSsl
             first := match Text.rfind (proto ++ schemeEnd ++ (auth ++ suffix)) '@'
                 ((proto ++ schemeEnd).length + auth.length) with
               | some pos => if (proto ++ schemeEnd).length ≤ pos then pos + 1
                   else (proto ++ schemeEnd).length
               | none => (proto ++ schemeEnd).length
             last := (proto ++ schemeEnd).length + auth.length } := by
  have hfind : Text.find (proto ++ schemeEnd ++ (auth ++ suffix)) [':', '/', '/'] 0 =
      some proto.length := find_schemeEnd hproto _
  have hsubstr : Text.substr (proto ++ schemeEnd ++ (auth ++ suffix)) 0 proto.length = proto := by
    simp [Text.substr]
  have hfirst : proto.length + 3 = (proto ++ schemeEnd).length := by simp [schemeEnd]
  have hend : (Text.findFirstOf (proto ++ schemeEnd ++ (auth ++ suffix)) ['/', '?', '#']
      (proto ++ schemeEnd).length).getD (proto ++ schemeEnd ++ (auth ++ suffix)).length =
        (proto ++ schemeEnd).length + auth.length :=
    findFirstOf_delimiters (proto ++ schemeEnd) hauth hsuffix
  rw [serverPort, hfind]
  dsimp only
  rw [hsubstr, hproto, hfirst, hend]
  cases Text.rfind (proto ++ schemeEnd ++ (auth ++ suffix)) '@'
    ((proto ++ schemeEnd).length + auth.length) <;> rfl

end Url

theorem serverPort_written {endpoint server suffix : List Char} {useSsl : Bool}
    (h : Written endpoint useSsl server suffix) :
    (∀ c ∈ suffix.head?, c ∈ delimiters) ∧ ∃ front, endpoint = front ++ (server ++ suffix) ∧
      serverPort endpoint =
        some { useSsl, first := front.length, last := front.length + server.length } := by
  cases h with
  | plain hplain =>
    refine ⟨by simp, [], by simp, ?_⟩
    have hfind : Text.find endpoint [':', '/', '/'] 0 = none := Text.find_eq_none.mpr hplain
    simp [serverPort, hfind]
  | @url proto pre _ _ _ hproto hpre hserver hauth hsuffix =>
    refine ⟨hsuffix, proto ++ schemeEnd ++ pre, by simp, ?_⟩
    rw [List.append_assoc (proto ++ schemeEnd), serverPort_url hproto hauth hsuffix]
    obtain rfl | ⟨userinfo, rfl⟩ := hpre
    · have hfront : '@' ∉ proto ++ schemeEnd := by
        simp [(protocol_known hproto).2, schemeEnd]
      have hnone := rfind_none hfront hserver hsuffix
      rw [List.nil_append, hnone, List.append_nil]
    · rw [rfind_userinfo (proto ++ schemeEnd) hserver hsuffix]
      simp
      omega

/-- The first delimiter ends the server part. -/
theorem exists_suffix (rest : List Char) : ∃ auth suffix, rest = auth ++ suffix ∧
    (∀ c ∈ auth, c ∉ delimiters) ∧ ∀ c ∈ suffix.head?, c ∈ delimiters := by
  refine ⟨rest.takeWhile (decide <| · ∉ delimiters), rest.dropWhile (decide <| · ∉ delimiters),
    List.takeWhile_append_dropWhile.symm, fun c hc => ?_, fun c hc => ?_⟩
  · have hin := List.mem_takeWhile_imp hc
    exact of_decide_eq_true hin
  · have hhead := List.head?_dropWhile_not (decide <| · ∉ delimiters) rest
    rw [Option.mem_def.mp hc] at hhead
    exact not_not.mp (of_decide_eq_false hhead)

/-- The last `'@'` ends the userinfo. -/
theorem exists_userinfo (auth : List Char) : ∃ pre server, auth = pre ++ server ∧
    (pre = [] ∨ ∃ userinfo, pre = userinfo ++ ['@']) ∧ '@' ∉ server := by
  by_cases hat : '@' ∈ auth
  · obtain ⟨l, t, heq, hl⟩ := List.eq_append_cons_of_mem (List.mem_reverse.mpr hat)
    refine ⟨t.reverse ++ ['@'], l.reverse, ?_, .inr ⟨t.reverse, rfl⟩, by simpa using hl⟩
    rw [← List.reverse_reverse auth, heq]
    simp
  · exact ⟨[], auth, rfl, .inl rfl, hat⟩

theorem written_of_serverPort {endpoint : List Char} {r : ServerPort}
    (h : serverPort endpoint = some r) :
    ∃ server suffix, Written endpoint r.useSsl server suffix := by
  unfold serverPort at h
  split at h
  · rename_i hfind
    cases h
    exact ⟨endpoint, [], .plain (Text.find_eq_none.mp hfind)⟩
  · rename_i pos hfind
    obtain ⟨useSsl, hproto, h⟩ := Option.bind_eq_some_iff.mp h
    obtain rfl : r.useSsl = useSsl := by
      dsimp only at h
      split at h <;> cases h <;> rfl
    obtain ⟨t, ht, hpos⟩ := Text.find_split hfind
    obtain ⟨auth, suffix, rfl, hauth, hsuffix⟩ := exists_suffix t
    obtain ⟨pre, server, rfl, hpre, hserver⟩ := exists_userinfo auth
    refine ⟨server, suffix, ?_⟩
    rw [ht, ← List.append_assoc _ _ suffix]
    exact .url hproto hpre hserver hauth hsuffix

/-! ## The endpoint -/

section Parse

variable {endpoint host ds suffix : List Char} {newPort : UInt32} {useSsl : Bool}

/-- The server name is what stands between the start of the range and the port, or its end. -/
theorem parse_host {front rest : List Char} {r : ServerPort}
    (hr : serverPort (front ++ (host ++ rest)) = some r) (hfirst : r.first = front.length)
    (hlast : (portColon (front ++ (host ++ rest)) r).getD r.last = front.length + host.length) :
    parse (front ++ (host ++ rest)) newPort = if host = [] then none
      else some ⟨r.useSsl, host, usePort (front ++ (host ++ rest)) newPort r⟩ := by
  have hname : Text.substr (front ++ (host ++ rest)) front.length host.length = host := by
    simp [Text.substr]
  simp only [parse, hr, Option.bind_eq_bind, Option.bind_some, hlast, hfirst]
  rw [Nat.add_sub_cancel_left, hname]
  by_cases hhost : host = []
  · rw [if_pos (by simp [hhost]), if_pos hhost]
  · have hlen := List.length_pos_iff.mpr hhost
    rw [if_neg (by omega), if_neg hhost]

theorem parse_portless (h : Written endpoint useSsl host suffix)
    (hport : suffix ≠ [] ∨ ¬EndsInPort host) :
    parse endpoint newPort = if host = [] then none
      else some ⟨useSsl, host, override newPort (defaultPort useSsl)⟩ := by
  obtain ⟨hsuffix, front, rfl, hrange⟩ := serverPort_written h
  have hcolon : portColon (front ++ (host ++ suffix))
      { useSsl, first := front.length, last := front.length + host.length } = none := by
    cases suffix with
    | nil =>
      rw [List.append_nil]
      exact portColon_portless front (hport.resolve_left fun hne => hne rfl)
    | cons d s => exact portColon_delimited front (hsuffix d rfl) s
  rw [parse_host hrange rfl (by rw [hcolon, Option.getD_none]), usePort, hcolon]
  rfl

theorem parse_ported (h : Written endpoint useSsl (host ++ ':' :: ds) [])
    (hds : ∀ c ∈ ds, c.isDigit = true) :
    parse endpoint newPort = if host = [] then none
      else some ⟨useSsl, host, override newPort (portValue ds)⟩ := by
  obtain ⟨-, front, rfl, hrange⟩ := serverPort_written h
  rw [List.append_nil] at hrange ⊢
  have hcolon : portColon (front ++ (host ++ ':' :: ds))
      { useSsl, first := front.length, last := front.length + (host ++ ':' :: ds).length } =
        some (front.length + host.length) := portColon_ported front hds
  have hport : writtenPort (front ++ (host ++ ':' :: ds)) (front.length + host.length) =
      portValue ds := by
    rw [writtenPort, Nat.add_assoc, List.drop_length_add_append, List.drop_length_add_append]
    rfl
  rw [parse_host hrange rfl (by rw [hcolon, Option.getD_some]), usePort, hcolon, Option.map_some,
    hport]
  rfl

/-- **An endpoint is accepted exactly if it names a server.** -/
theorem parse_names {e : Endpoint} :
    parse endpoint newPort = some e ↔ Names endpoint newPort e := by
  constructor
  · intro h
    obtain ⟨r, hr, -⟩ := Option.bind_eq_some_iff.mp h
    obtain ⟨server, suffix, hw⟩ := written_of_serverPort hr
    by_cases hport : suffix ≠ [] ∨ ¬EndsInPort server
    · rw [parse_portless hw hport] at h
      split at h
      · cases h
      · rename_i hhost
        cases h
        exact .portless hw hhost hport
    · simp only [not_or, not_not] at hport
      obtain ⟨rfl, host, ds, rfl, hds⟩ := hport
      rw [parse_ported hw hds] at h
      split at h
      · cases h
      · rename_i hhost
        cases h
        exact .ported hw hhost hds
  · rintro (⟨hw, hhost, hport⟩ | ⟨hw, hhost, hds⟩)
    · rw [parse_portless hw hport, if_neg hhost]
    · rw [parse_ported hw hds, if_neg hhost]

end Parse

end Slirc.Connection.Endpoint
