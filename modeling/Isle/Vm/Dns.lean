import Isle.Go.Net

/-!
# Answering from the host's resolver

`resolveLocal` of `vm/dns.go`: a query of the guest is answered from what the host's resolver
returns. Each of the seven types has a branch of its own that fills the reply. **In two of them the
reply is another variable of the same name**, and what they fill is not what is written: the reply
to a query of these types has no answers, which looks like one for a name without records
(`resolveLocal_eq_records_iff`).
-/

namespace Vm.Dns

/-- The types of query that are answered, and the others. -/
inductive QType
  | a
  | aaaa
  | cname
  | ns
  | mx
  | srv
  | txt
  | other (code : UInt16)
  deriving DecidableEq, Repr

/-- What is asked for. -/
structure Question where
  name : String
  qtype : QType
  qclass : UInt16
  deriving DecidableEq, Repr

/-- `dns.RR_Header` -/
structure Header where
  name : String
  rrtype : QType
  qclass : UInt16
  ttl : UInt32
  deriving DecidableEq, Repr

/-- `dns.RR` -/
inductive RR
  | a (hdr : Header) (a : IP)
  | aaaa (hdr : Header) (aaaa : IP)
  | cname (hdr : Header) (target : String)
  | ns (hdr : Header) (ns : String)
  | mx (hdr : Header) (preference : UInt16) (mx : String)
  | srv (hdr : Header) (priority weight port : UInt16) (target : String)
  | txt (hdr : Header) (txt : List String)
  deriving DecidableEq, Repr

/-- `dns.Msg`: what is in front of the sections, and two of these. -/
structure Msg (H : Type*) where
  head : H
  question : List Question
  answer : List RR
  deriving DecidableEq, Repr

/-- What `SetReply` makes of an empty message: the head and the question of a reply to a query, with
no answers. -/
structure Replies (H : Type*) where
  setReply : Msg H → Msg H
  answer_setReply : ∀ r, (setReply r).answer = []

/-- Why the resolver has no result: an error of its own, with `IsNotFound` or not, or another. -/
inductive ResolveError
  | dns (isNotFound : Bool)
  | other
  deriving DecidableEq, Repr

/-- A mail server, as the resolver gives it. -/
structure MX where
  host : String
  pref : UInt16
  deriving DecidableEq, Repr

/-- A service, as the resolver gives it. -/
structure SRV where
  target : String
  port : UInt16
  priority : UInt16
  weight : UInt16
  deriving DecidableEq, Repr

/-- `net.Resolver`, as the host's resolver answers at the time. -/
structure Resolver where
  /-- `LookupIP` with `ip4` -/
  lookupIP4 : String → Except ResolveError (List IP)
  /-- `LookupIP` with `ip6` -/
  lookupIP6 : String → Except ResolveError (List IP)
  lookupCNAME : String → Except ResolveError String
  lookupNS : String → Except ResolveError (List String)
  lookupMX : String → Except ResolveError (List MX)
  lookupSRV : String → Except ResolveError (List SRV)
  lookupTXT : String → Except ResolveError (List String)

variable {H α : Type*}

/-- The header of every record of the answer. -/
def header (q : Question) : Header := ⟨q.name, q.qtype, q.qclass, 60⟩

/-- Handle what a lookup returned: a result goes on with `fill`; without one, an empty reply is sent
if the name was not found, and none is otherwise. -/
def onResult (resp : Msg H) (result : Except ResolveError α) (fill : α → Msg H) : Option (Msg H) :=
  match result with
  | .ok recs => some (fill recs)
  | .error (.dns isNotFound) => if isNotFound then some resp else none
  | .error .other => none

/-- Append records to the answers of a message. -/
def Msg.add (resp : Msg H) (rrs : List RR) : Msg H := { resp with answer := resp.answer ++ rrs }

/-- The reply that `resolveLocal` writes, if it comes to that. -/
def reply (L : Replies H) (nr : Resolver) (r : Msg H) : Option (Msg H) :=
  match r.question with
  | [q] =>
    let resp := L.setReply r
    let hdr := header q
    match q.qtype with
    | .a => onResult resp (nr.lookupIP4 q.name) fun ips ↦
      resp.add ((ips.filter fun ip ↦ ¬ isLoopback ip).map (.a hdr))
    | .aaaa => onResult resp (nr.lookupIP6 q.name) fun ips ↦
      resp.add ((ips.filter fun ip ↦ ¬ isLoopback ip).map (.aaaa hdr))
    | .cname => onResult resp (nr.lookupCNAME q.name) fun tgt ↦ resp.add [.cname hdr tgt]
    | .ns => onResult resp (nr.lookupNS q.name) fun nss ↦ resp.add (nss.map (.ns hdr))
    | .mx => onResult resp (nr.lookupMX q.name) fun recs ↦
      -- the block has a message of its own, which has no preferences in it
      let _inner := (L.setReply r).add (recs.map fun rec ↦ .mx hdr 0 rec.host)
      resp
    | .srv => onResult resp (nr.lookupSRV q.name) fun recs ↦
      resp.add (recs.map fun rec ↦ .srv hdr rec.priority rec.weight rec.port rec.target)
    | .txt => onResult resp (nr.lookupTXT q.name) fun recs ↦
      let _inner := (L.setReply r).add [.txt hdr recs]
      resp
    | .other _ => none
  | _ => none

/-- `resolveLocal`, where `WriteMsg` may fail: what it writes, and what it returns. -/
def resolveLocal (L : Replies H) (nr : Resolver) (writes : Bool) (r : Msg H) :
    Option (Msg H) × Bool :=
  match reply L nr r with
  | none => (none, false)
  | some resp => (some resp, writes)

/-! ### The records of the resolver -/

/-- One record for each of the resolver's, without loopback addresses; the strings of a text are in
one. -/
def records (nr : Resolver) (q : Question) : Except ResolveError (List RR) :=
  match q.qtype with
  | .a => (nr.lookupIP4 q.name).map fun ips ↦
    (ips.filter fun ip ↦ ¬ isLoopback ip).map (.a (header q))
  | .aaaa => (nr.lookupIP6 q.name).map fun ips ↦
    (ips.filter fun ip ↦ ¬ isLoopback ip).map (.aaaa (header q))
  | .cname => (nr.lookupCNAME q.name).map fun tgt ↦ [.cname (header q) tgt]
  | .ns => (nr.lookupNS q.name).map fun nss ↦ nss.map (.ns (header q))
  | .mx => (nr.lookupMX q.name).map fun recs ↦
    recs.map fun rec ↦ .mx (header q) rec.pref rec.host
  | .srv => (nr.lookupSRV q.name).map fun recs ↦
    recs.map fun rec ↦ .srv (header q) rec.priority rec.weight rec.port rec.target
  | .txt => (nr.lookupTXT q.name).map fun recs ↦ if recs = [] then [] else [.txt (header q) recs]
  | .other _ => .error .other

/-- A branch that fills the reply puts the records into it. -/
theorem onResult_add {resp : Msg H} (hresp : resp.answer = []) {result : Except ResolveError α}
    {f : α → List RR} {answers : List RR} (h : result.map f = .ok answers) :
    onResult resp result (fun recs ↦ resp.add (f recs)) = some { resp with answer := answers } := by
  cases result with
  | error e => cases h
  | ok recs =>
    obtain rfl := Except.ok.inj h
    rw [onResult, Msg.add, hresp, List.nil_append]

/-- A branch that does not is right only if there are none. -/
theorem onResult_self {resp : Msg H} (hresp : resp.answer = []) {result : Except ResolveError α}
    {f : α → List RR} {answers : List RR} (h : result.map f = .ok answers) :
    onResult resp result (fun _ ↦ resp) = some { resp with answer := answers } ↔ answers = [] := by
  cases result with
  | error e => cases h
  | ok recs =>
    rw [onResult, Option.some.injEq]
    constructor
    · intro heq
      rw [← hresp, heq]
    · rintro rfl
      rw [← hresp]

/-- **The reply has the resolver's records exactly if there are none of the two types whose branches
lose them.** -/
theorem resolveLocal_eq_records_iff (L : Replies H) (nr : Resolver) (writes : Bool) {r : Msg H}
    {q : Question} {answers : List RR} (hq : r.question = [q])
    (hrecords : records nr q = .ok answers) :
    (resolveLocal L nr writes r).1 = some { L.setReply r with answer := answers } ↔
      (q.qtype = .mx → nr.lookupMX q.name = .ok []) ∧
        (q.qtype = .txt → nr.lookupTXT q.name = .ok []) := by
  have hresp := L.answer_setReply r
  have hwritten : (resolveLocal L nr writes r).1 = reply L nr r := by
    rw [resolveLocal]
    cases reply L nr r <;> rfl
  rw [hwritten, reply, hq]
  rw [records] at hrecords
  cases ht : q.qtype with
  | a | aaaa | cname | ns | srv =>
    simp only [ht] at hrecords
    simp only [ht, reduceCtorEq, false_implies, and_self, iff_true]
    exact onResult_add hresp hrecords
  | mx =>
    simp only [ht] at hrecords
    simp only [ht, reduceCtorEq, false_implies, and_true, true_implies]
    -- the branch fills a `resp` of its own, which is not the one that is sent
    rw [onResult_self hresp hrecords]
    cases hmx : nr.lookupMX q.name with
    | error e => simp [hmx, Except.map] at hrecords
    | ok recs =>
      simp only [hmx, Except.map, Except.ok.injEq] at hrecords ⊢
      rw [← hrecords, List.map_eq_nil_iff]
  | txt =>
    simp only [ht] at hrecords
    simp only [ht, reduceCtorEq, false_implies, true_and, true_implies]
    rw [onResult_self hresp hrecords]
    cases htxt : nr.lookupTXT q.name with
    | error e => simp [htxt, Except.map] at hrecords
    | ok recs =>
      simp only [htxt, Except.map, Except.ok.injEq] at hrecords ⊢
      rw [← hrecords]
      split_ifs with hnil <;> simp [hnil]
  | other code =>
    rw [ht] at hrecords
    cases hrecords

/-! ### Queries -/

/-- `dns.MsgHdr`, as far as it is in a reply. -/
structure MsgHdr where
  id : UInt16
  response : Bool
  opcode : ℕ
  recursionDesired : Bool
  checkingDisabled : Bool
  rcode : ℕ
  deriving DecidableEq, Repr

/-- Replies with the id and the question of the query. -/
def plainReplies : Replies MsgHdr where
  setReply r :=
    { head :=
        { id := r.head.id
          response := true
          opcode := r.head.opcode
          recursionDesired := r.head.opcode = 0 ∧ r.head.recursionDesired
          checkingDisabled := r.head.opcode = 0 ∧ r.head.checkingDisabled
          rcode := 0 }
      question := r.question.take 1
      answer := [] }
  answer_setReply _ := rfl

/-- A query for `isle.dev.` -/
def query (qtype : QType) : Msg MsgHdr :=
  ⟨⟨7, false, 0, true, false, 0⟩, [⟨"isle.dev.", qtype, 1⟩], []⟩

/-- A resolver with two addresses and a mail server for every name. -/
def exampleResolver : Resolver where
  lookupIP4 _ := .ok [[127, 0, 0, 1], [10, 0, 0, 7]]
  lookupIP6 _ := .error (.dns true)
  lookupCNAME name := .ok name
  lookupNS _ := .error (.dns true)
  lookupMX _ := .ok [⟨"mail.isle.dev.", 10⟩]
  lookupSRV _ := .error (.dns true)
  lookupTXT _ := .error (.dns true)

theorem resolveLocal_addresses :
    records exampleResolver ⟨"isle.dev.", .a, 1⟩ =
        .ok [.a ⟨"isle.dev.", .a, 1, 60⟩ [10, 0, 0, 7]] ∧
      ((resolveLocal plainReplies exampleResolver true (query .a)).1 =
          some { plainReplies.setReply (query .a) with
            answer := [.a ⟨"isle.dev.", .a, 1, 60⟩ [10, 0, 0, 7]] } ↔
        (QType.a = .mx → exampleResolver.lookupMX "isle.dev." = .ok []) ∧
          (QType.a = .txt → exampleResolver.lookupTXT "isle.dev." = .ok [])) :=
  ⟨by decide, resolveLocal_eq_records_iff plainReplies exampleResolver true
    (show (query .a).question = [⟨"isle.dev.", .a, 1⟩] from rfl) (by decide)⟩

/-- The mail server is not in the reply. -/
theorem resolveLocal_loses_mx :
    records exampleResolver ⟨"isle.dev.", .mx, 1⟩ =
        .ok [.mx ⟨"isle.dev.", .mx, 1, 60⟩ 10 "mail.isle.dev."] ∧
      (resolveLocal plainReplies exampleResolver true (query .mx)).1 =
        some (plainReplies.setReply (query .mx)) ∧
      (resolveLocal plainReplies exampleResolver true (query .mx)).1 ≠
        some { plainReplies.setReply (query .mx) with
          answer := [.mx ⟨"isle.dev.", .mx, 1, 60⟩ 10 "mail.isle.dev."] } := by
  decide

end Vm.Dns
