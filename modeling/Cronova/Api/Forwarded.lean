import Cronova.Http.Address
import Cronova.Text.Trim

/-! The address of a client behind a trusted proxy. Only the first header line of `X-Forwarded-For` is
read, from its last element to its first, past what is no address and past trusted addresses.
-/

set_option autoImplicit false

namespace Cronova.Api

open Http (IP IPNet parseIP splitHostPort)

/-- What of a request decides the address: the TCP peer and the lines of `X-Forwarded-For`. -/
structure ForwardedRequest where
  remoteAddr : List Char
  forwardedFor : List (List Char) := []

def trimText (text : List Char) : List Char := Text.trim Text.isSpace text

def remoteIP (remoteAddr : List Char) : Option IP :=
  let host := match splitHostPort remoteAddr with
    | some (host, _) => host
    | none => remoteAddr
  parseIP (Text.trim (fun c => c == '[' || c == ']') host)

def trustedProxy (trusted : List IPNet) (ip : Option IP) : Bool :=
  match ip with
  | none => false
  | some ip => ip.isLoopback || trusted.any (·.contains ip)

/-- `Header.Get`: the first line, or nothing. -/
def headerGet (lines : List (List Char)) : List Char := lines.head?.getD []

/-- One round of the loop over the elements. -/
def candidate (trusted : List IPNet) (part : List Char) : Option IP :=
  (parseIP (trimText part)).filter fun ip => !trustedProxy trusted (some ip)

def lastCandidate (trusted : List IPNet) (parts : List (List Char)) : Option IP :=
  parts.reverse.findSome? (candidate trusted)

/-- The host of an address with a port, for peers that are not trusted. -/
def hostOf (remoteAddr : List Char) : List Char :=
  match splitHostPort remoteAddr with
  | some (host, _) => host
  | none => remoteAddr

def clientIP (trusted : List IPNet) (r : ForwardedRequest) : List Char :=
  let peer := remoteIP r.remoteAddr
  if !trustedProxy trusted peer then hostOf r.remoteAddr
  else
    match lastCandidate trusted ((headerGet r.forwardedFor).splitOn ',') with
    | some ip => ip.string
    | none =>
      match peer with
      | some ip => ip.string
      | none => hostOf r.remoteAddr

/-- The keys under which the login limiter counts. -/
def loginKeys (username clientAddr : List Char) : List (List Char) :=
  ["u:".toList ++ username, "ip:".toList ++ clientAddr]

/-! ### What proxies do with the header -/

/-- A proxy puts its entry behind all that it received, in one line; behind the last line that it
received; or in a line of its own. -/
inductive Manner where
  | joined | lastLine | furtherLine
  deriving DecidableEq, Repr

def commas (elements : List (List Char)) : List Char := [',', ' '].intercalate elements

/-- The lines that arrive when a client sent some and the proxy appended its entry. -/
def received (manner : Manner) (entry : List Char) (sent : List (List Char)) : List (List Char) :=
  match manner with
  | .joined => [commas (sent ++ [entry])]
  | .lastLine =>
    match sent.getLast? with
    | none => [entry]
    | some last => sent.dropLast ++ [commas [last, entry]]
  | .furtherLine => sent ++ [entry]

/-- Whatever a client sends, the address and with it the limiter's keys stay the same. -/
structure Unforgeable (trusted : List IPNet) (remoteAddr : List Char) (manner : Manner) (entry : List Char) : Prop where
  address : ∀ sent sent', clientIP trusted ⟨remoteAddr, received manner entry sent⟩ =
    clientIP trusted ⟨remoteAddr, received manner entry sent'⟩
  keys : ∀ sent sent' username, loginKeys username (clientIP trusted ⟨remoteAddr, received manner entry sent⟩) =
    loginKeys username (clientIP trusted ⟨remoteAddr, received manner entry sent'⟩)

def TrustsAll (trusted : List IPNet) : Prop := ∀ ip, trustedProxy trusted (some ip) = true

/-- The entry holds an address that is not trusted. -/
def Names (trusted : List IPNet) (entry : List Char) : Prop :=
  ∃ part ∈ entry.splitOn ',', ∃ ip, parseIP (trimText part) = some ip ∧ trustedProxy trusted (some ip) = false

variable {trusted : List IPNet} {remoteAddr : List Char} {entry : List Char}

theorem candidate_eq_some {part : List Char} {ip : IP} :
    candidate trusted part = some ip ↔ parseIP (trimText part) = some ip ∧ trustedProxy trusted (some ip) = false := by
  simp [candidate, Option.filter_eq_some_iff]

theorem lastCandidate_append (left right : List (List Char)) :
    lastCandidate trusted (left ++ right) = (lastCandidate trusted right).or (lastCandidate trusted left) := by
  rw [lastCandidate, List.reverse_append, List.findSome?_append]
  rfl

theorem lastCandidate_eq_none {parts : List (List Char)} :
    lastCandidate trusted parts = none ↔ ∀ part ∈ parts, candidate trusted part = none := by
  simp [lastCandidate]

theorem lastCandidate_isSome : (lastCandidate trusted (entry.splitOn ',')).isSome ↔ Names trusted entry := by
  rw [Option.isSome_iff_ne_none, ne_eq, lastCandidate_eq_none, not_forall]
  constructor
  · rintro ⟨part, named⟩
    obtain ⟨member, found⟩ := Classical.not_imp.mp named
    obtain ⟨ip, same⟩ := Option.ne_none_iff_exists'.mp found
    exact ⟨part, member, ip, candidate_eq_some.mp same⟩
  · rintro ⟨part, member, ip, named⟩
    refine ⟨part, fun none => ?_⟩
    rw [candidate_eq_some.mpr named] at none
    cases none member

/-- The walk as far as the peer is trusted. -/
theorem clientIP_trusted {peer : IP} {lines : List (List Char)} (reads : remoteIP remoteAddr = some peer)
    (trusts : trustedProxy trusted (some peer) = true) :
    clientIP trusted ⟨remoteAddr, lines⟩ = ((lastCandidate trusted ((headerGet lines).splitOn ',')).getD peer).string := by
  simp only [clientIP, reads, trusts, Bool.not_true, Bool.false_eq_true, if_false]
  cases lastCandidate trusted ((headerGet lines).splitOn ',') <;> rfl

/-- Where everything is trusted nobody but the peer is found. -/
theorem lastCandidate_trustsAll (all : TrustsAll trusted) (parts : List (List Char)) : lastCandidate trusted parts = none := by
  rw [lastCandidate_eq_none]
  intro part _
  rw [← Option.not_isSome_iff_eq_none, Option.isSome_iff_exists]
  rintro ⟨ip, found⟩
  have distrusted := (candidate_eq_some.mp found).2
  rw [all ip] at distrusted
  cases distrusted

/-- The blank after a comma is trimmed away. -/
theorem lastCandidate_blank (text : List Char) :
    lastCandidate trusted ((' ' :: text).splitOn ',') = lastCandidate trusted (text.splitOn ',') := by
  have blank (part : List Char) : candidate trusted (' ' :: part) = candidate trusted part := rfl
  rw [List.splitOn_cons_eq_if_modifyHead, if_neg (by decide)]
  cases parts : text.splitOn ',' with
  | nil => exact absurd parts (List.splitOn_ne_nil ',' text)
  | cons part rest => simp [lastCandidate, List.findSome?_append, blank]

theorem commas_append {sent : List (List Char)} (nonempty : sent ≠ []) :
    commas (sent ++ [entry]) = commas sent ++ ',' :: ' ' :: entry := by
  unfold commas
  induction sent with
  | nil => exact absurd rfl nonempty
  | cons first rest ih =>
    cases rest with
    | nil => simp
    | cons second rest =>
      rw [List.cons_append, List.cons_append, List.intercalate_cons_cons, ← List.cons_append, ih (by simp),
        List.intercalate_cons_cons]
      simp

/-- In one line the entry of the proxy is looked at before anything that was sent. -/
theorem lastCandidate_joined {sent : List (List Char)} (nonempty : sent ≠ []) :
    lastCandidate trusted ((headerGet (received .joined entry sent)).splitOn ',') =
      (lastCandidate trusted (entry.splitOn ',')).or (lastCandidate trusted ((commas sent).splitOn ',')) := by
  change lastCandidate trusted ((commas (sent ++ [entry])).splitOn ',') = _
  rw [commas_append nonempty, List.splitOn_append_cons_self, lastCandidate_append, lastCandidate_blank]

@[simp] theorem commas_singleton (element : List Char) : commas [element] = element := by simp [commas]

/-- A digit is neither a comma nor white space. -/
theorem digit_plain {c : Char} (digit : Http.hexValue c ≠ none) : c ≠ ',' ∧ Text.isSpace c = false := by
  have table : ∀ n < 103, Http.hexValue (Char.ofNat n) ≠ none → Char.ofNat n ≠ ',' ∧ Text.isSpace (Char.ofNat n) = false := by
    decide
  have low : c.toNat < 103 := by
    by_contra high
    refine digit ?_
    have beyond {d : Char} (small : d.toNat ≤ 102) : ¬ c ≤ d := fun below => high (Nat.lt_succ_of_le (Nat.le_trans below small))
    unfold Http.hexValue
    rw [if_neg fun both => beyond (by decide) both.2, if_neg fun both => beyond (by decide) both.2,
      if_neg fun both => beyond (by decide) both.2]
  simpa using table c.toNat low (by simpa using digit)

/-- The text of an address is one element, and it is found unless it is trusted. -/
theorem lastCandidate_string {ip : IP} (distrusted : trustedProxy trusted (some ip) = false) :
    lastCandidate trusted (ip.string.splitOn ',') = some ip := by
  have plain {c : Char} (member : c ∈ ip.string) : c ≠ ',' ∧ Text.isSpace c = false := by
    rcases Http.mem_string member with rfl | rfl | digit
    · decide
    · decide
    · exact digit_plain digit
  have one : ip.string.splitOn ',' = [ip.string] := List.splitOn_eq_singleton fun member => (plain member).1 rfl
  have trimmed : trimText ip.string = ip.string := Text.trim_eq_self _ _ fun c member => (plain member).2
  rw [one, lastCandidate, List.reverse_singleton, List.findSome?_cons, candidate_eq_some.mpr ⟨by rw [trimmed, Http.parseIP_string], distrusted⟩]

/-- A client that can have its own address found, or none, chooses between that address and the peer. -/
theorem forged {peer ip : IP} (reads : remoteIP remoteAddr = some peer) (trusts : trustedProxy trusted (some peer) = true)
    (distrusted : trustedProxy trusted (some ip) = false) (chosen empty : List (List Char))
    (own : lastCandidate trusted ((headerGet chosen).splitOn ',') = some ip) (nothing : lastCandidate trusted ((headerGet empty).splitOn ',') = none) :
    clientIP trusted ⟨remoteAddr, chosen⟩ ≠ clientIP trusted ⟨remoteAddr, empty⟩ := by
  rw [clientIP_trusted reads trusts, clientIP_trusted reads trusts, own, nothing]
  intro same
  have one : ip = peer := IP.string_injective same
  rw [one, trusts] at distrusted
  cases distrusted

/-- Behind a trusted peer the address cannot be forged exactly where the proxy delivers one line and its
entry names an address that is not trusted, or where every address is trusted. -/
theorem unforgeable_iff (behind : trustedProxy trusted (remoteIP remoteAddr) = true) (manner : Manner) :
    Unforgeable trusted remoteAddr manner entry ↔ TrustsAll trusted ∨ manner = .joined ∧ Names trusted entry := by
  obtain ⟨peer, reads, trusts⟩ : ∃ peer, remoteIP remoteAddr = some peer ∧ trustedProxy trusted (some peer) = true := by
    cases reads : remoteIP remoteAddr with
    | none =>
      rw [reads] at behind
      cases behind
    | some peer => exact ⟨peer, rfl, reads ▸ behind⟩
  have nobody : lastCandidate trusted (([] : List Char).splitOn ',') = none := by
    have unread : candidate trusted [] = none := rfl
    simp [lastCandidate, unread]
  constructor
  · intro unforgeable
    by_contra neither
    rw [not_or, not_and] at neither
    obtain ⟨ip, distrusted⟩ := not_forall.mp neither.1
    rw [Bool.not_eq_true] at distrusted
    have own := lastCandidate_string distrusted
    cases manner with
    | joined =>
      have unnamed : lastCandidate trusted (entry.splitOn ',') = none := by
        rw [← Option.not_isSome_iff_eq_none, lastCandidate_isSome]
        exact neither.2 rfl
      have behindEntry : lastCandidate trusted ((headerGet (received .joined entry [ip.string])).splitOn ',') = some ip := by
        rw [lastCandidate_joined (by simp), unnamed, Option.none_or, commas_singleton, own]
      have alone : lastCandidate trusted ((headerGet (received .joined entry [])).splitOn ',') = none := by
        simpa [headerGet, received] using unnamed
      exact forged reads trusts distrusted _ _ behindEntry alone (unforgeable.address [ip.string] [])
    | lastLine =>
      exact forged reads trusts distrusted (received .lastLine entry [ip.string, []]) (received .lastLine entry [[], []]) own nobody
        (unforgeable.address _ _)
    | furtherLine =>
      exact forged reads trusts distrusted (received .furtherLine entry [ip.string]) (received .furtherLine entry [[]]) own nobody
        (unforgeable.address _ _)
  · intro safe
    have address : ∀ sent sent', clientIP trusted ⟨remoteAddr, received manner entry sent⟩ =
        clientIP trusted ⟨remoteAddr, received manner entry sent'⟩ := by
      intro sent sent'
      rw [clientIP_trusted reads trusts, clientIP_trusted reads trusts]
      rcases safe with all | ⟨rfl, names⟩
      · rw [lastCandidate_trustsAll all, lastCandidate_trustsAll all]
      · obtain ⟨ip, found⟩ := Option.isSome_iff_exists.mp (lastCandidate_isSome.mpr names)
        have fixed (sent : List (List Char)) :
            lastCandidate trusted ((headerGet (received .joined entry sent)).splitOn ',') = some ip := by
          by_cases nonempty : sent = []
          · simpa [nonempty, headerGet, received] using found
          · rw [lastCandidate_joined nonempty, found, Option.some_or]
        rw [fixed, fixed]
    exact ⟨address, fun sent sent' username => by rw [address sent sent']⟩

/-- `10.20.0.0/16`. -/
def sampleProxies : List IPNet := [⟨true, 169082880, 16⟩]

theorem unforgeable_joined : Unforgeable sampleProxies "10.20.1.8:1234".toList .joined "198.51.100.7".toList :=
  (unforgeable_iff (by decide +kernel) .joined).mpr (.inr ⟨rfl, "198.51.100.7".toList, by decide +kernel,
    ⟨[0, 0, 0, 0, 0, 65535, 50739, 25607], rfl, by decide⟩, by decide +kernel, by decide +kernel⟩)

/-- Where the proxy adds a line of its own, a client that sends a line chooses its address. -/
theorem not_always_unforgeable : ¬ ∀ trusted remoteAddr manner entry, trustedProxy trusted (remoteIP remoteAddr) = true →
    Unforgeable trusted remoteAddr manner entry := by
  intro always
  have unforgeable := always sampleProxies "10.20.1.8:1234".toList .furtherLine "198.51.100.7".toList (by decide +kernel)
  exact absurd (unforgeable.address ["203.0.113.9".toList] []) (by decide +kernel)

end Cronova.Api
