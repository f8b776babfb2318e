import Mathlib.Data.List.TakeWhile
import Mathlib.Tactic.SplitIfs

/-!
# Hosts and ports

`net.SplitHostPort`: a text is split at its last colon, and a host that has colons of its own, as an
IPv6 address does, has to be in brackets. **A host and a port with a colon between them are split
back into the two exactly if neither has a colon or a bracket** (`splitHostPort_eq_ok_iff`).
-/

namespace HostPort

/-- Why a text is not split. -/
inductive AddrError
  | missingPort
  | tooManyColons
  | missingBracket
  | unexpectedOpen
  | unexpectedClose
  deriving DecidableEq, Repr

/-- What is behind the last colon. -/
def portOf (hostport : List Char) : List Char := (hostport.reverse.takeWhile (· ≠ ':')).reverse

/-- What is in front of the last colon. -/
def frontOf (hostport : List Char) : List Char :=
  hostport.take (hostport.length - (portOf hostport).length - 1)

/-- `net.SplitHostPort`: a host with colons has to be in brackets. -/
def splitHostPort (hostport : List Char) : Except AddrError (List Char × List Char) :=
  if ':' ∉ hostport then .error .missingPort
  else if hostport.head? = some '[' then
    if ']' ∉ hostport then .error .missingBracket
    else
      -- what is in the brackets, and what is behind them
      let host := hostport.tail.takeWhile (· ≠ ']')
      let rest := hostport.drop (host.length + 2)
      if rest = [] then .error .missingPort
      else if host.length + 2 = (frontOf hostport).length then
        if '[' ∈ hostport.tail then .error .unexpectedOpen
        else if ']' ∈ rest then .error .unexpectedClose
        else .ok (host, portOf hostport)
      else if rest.head? = some ':' then .error .tooManyColons
      else .error .missingPort
  else if ':' ∈ frontOf hostport then .error .tooManyColons
  else if '[' ∈ hostport then .error .unexpectedOpen
  else if ']' ∈ hostport then .error .unexpectedClose
  else .ok (frontOf hostport, portOf hostport)

example : splitHostPort "[::1]:53".toList = .ok ("::1".toList, "53".toList) := by decide

/-- A text without colons and brackets. -/
def Plain (s : List Char) : Prop := ':' ∉ s ∧ '[' ∉ s ∧ ']' ∉ s

instance (s : List Char) : Decidable (Plain s) := inferInstanceAs (Decidable (_ ∧ _))

theorem colon_not_mem_portOf (hostport : List Char) : ':' ∉ portOf hostport := by
  rw [portOf, List.mem_reverse]
  intro h
  simpa using List.mem_takeWhile_imp h

variable {host port : List Char}

theorem portOf_append (hport : ':' ∉ port) : portOf (host ++ ':' :: port) = port := by
  have hall : ∀ c ∈ port.reverse, decide (c ≠ ':') = true := fun c hc ↦
    decide_eq_true fun h ↦ hport (h ▸ List.mem_reverse.1 hc)
  rw [portOf, List.reverse_append, List.reverse_cons, List.append_assoc,
    List.takeWhile_append_of_pos hall]
  simp

theorem frontOf_append (hport : ':' ∉ port) : frontOf (host ++ ':' :: port) = host := by
  rw [frontOf, portOf_append hport, List.length_append, List.length_cons]
  rw [show host.length + (port.length + 1) - port.length - 1 = host.length by omega, List.take_left]

/-- What a text that is split was like. -/
theorem splitHostPort_cases {hostport : List Char} (h : splitHostPort hostport = .ok (host, port)) :
    port = portOf hostport ∧
      (hostport.head? = some '[' ∧ host.length + 2 = (frontOf hostport).length ∨
        host = frontOf hostport ∧ ':' ∉ host ∧ '[' ∉ hostport ∧ ']' ∉ hostport) := by
  simp only [splitHostPort] at h
  split_ifs at h with _ hopen _ _ hlen _ _ _ hcolon hopen' hclose
  · obtain ⟨rfl, rfl⟩ := Prod.mk.inj (Except.ok.inj h)
    exact ⟨rfl, .inl ⟨hopen, hlen⟩⟩
  · obtain ⟨rfl, rfl⟩ := Prod.mk.inj (Except.ok.inj h)
    exact ⟨rfl, .inr ⟨rfl, hcolon, hopen', hclose⟩⟩

/-- **What is put together is split into the same, and otherwise not.** -/
theorem splitHostPort_eq_ok_iff (host port : List Char) :
    splitHostPort (host ++ ':' :: port) = .ok (host, port) ↔ Plain host ∧ Plain port := by
  constructor
  · intro h
    obtain ⟨hport, hcases⟩ := splitHostPort_cases h
    have hcolon : ':' ∉ port := hport ▸ colon_not_mem_portOf _
    rw [frontOf_append hcolon] at hcases
    rcases hcases with ⟨-, hlen⟩ | ⟨-, hhost, hopen, hclose⟩
    · omega
    · simp only [List.mem_append, List.mem_cons, not_or] at hopen hclose
      exact ⟨⟨hhost, hopen.1, hclose.1⟩, hcolon, hopen.2.2, hclose.2.2⟩
  · rintro ⟨⟨hhost, hopen, hclose⟩, hcolon, hopen', hclose'⟩
    have hopens : '[' ∉ host ++ ':' :: port := by simp [hopen, hopen']
    have hcloses : ']' ∉ host ++ ':' :: port := by simp [hclose, hclose']
    have hhead : (host ++ ':' :: port).head? ≠ some '[' := fun h ↦
      hopens (List.mem_of_head? h)
    rw [splitHostPort, if_neg (by simp), if_neg hhead, frontOf_append hcolon, if_neg hhost,
      if_neg hopens, if_neg hcloses, portOf_append hcolon]

end HostPort
