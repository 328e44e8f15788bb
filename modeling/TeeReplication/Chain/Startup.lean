import TeeReplication.Chain.Streams
import TeeReplication.Net.Startup

/-!
# How the programs of the chain find each other

The head connects to the middle, the middle to the tail and the tail to the head; on
the first two connections a second one follows in the other direction. The tail tries
to connect to the head only once. Nothing that happens before makes sure that the head
listens by then: it may be about to, two steps behind.
-/

namespace TeeReplication.Chain

/-- The machines, each with one program. -/
inductive Node
  | head
  | middle
  | tail
  deriving DecidableEq

/-- `head_port`. -/
def headPort : ℕ := 18000

/-- `middle_port`. -/
def middlePort : ℕ := 19000

/-- `tail_port`. -/
def tailPort : ℕ := 20000

/-- `head_id`. -/
def headId : ℕ := 0

/-- `tail_id`. -/
def tailId : ℕ := 2

open Net

/-- `connect_to_the_server_one_sided_connection`: connect once. -/
def connectToTheServerOneSidedConnection (port : ℕ) (hostname : Node) :
    List (SocketCall (Endpoint Node)) := [.connect (hostname, port) 0]

/-- The socket calls of `main`. -/
def Node.main : Node → List (SocketCall (Endpoint Node))
  | .head => connectToTheServer middlePort .middle middleId.toNat .head ++
      createReceiverConnection headPort .head headId none
  | .middle => createReceiverConnection middlePort .middle middleId.toNat (some .head) ++
      connectToTheServer tailPort .tail tailId .middle
  | .tail => createReceiverConnection tailPort .tail tailId (some .middle) ++
      connectToTheServerOneSidedConnection headPort .head

/-- The machine that a thread runs on. -/
def Thread.node : Thread → Node
  | .sender | .finale => .head
  | .middle => .middle
  | .tail => .tail

/-- The address at which the connection of a link is accepted. Its reader has the socket that is
accepted there as its `listening_socket`, its writer the one that connects as its
`sending_socket`. -/
def Link.endpoint : Link → Endpoint Node
  | .toMiddle => (.middle, middlePort)
  | .toTail => (.tail, tailPort)
  | .toHead => (.head, headPort)

/-- The address at which the head accepts a connection back that no link uses. -/
def backToHead : Endpoint Node := (.head, clientBaseAddr + middleId.toNat)

/-- The address at which the middle accepts one. -/
def backToMiddle : Endpoint Node := (.middle, clientBaseAddr + tailId)

instance : Fintype Node where
  elems := {.head, .middle, .tail}
  complete p := by cases p <;> decide

/-- Who connects to an address. -/
def dialer (a : Endpoint Node) : Node :=
  if a = Link.endpoint .toMiddle then .head
  else if a = backToHead ∨ a = Link.endpoint .toTail then .middle
  else .tail

/-- The connections are accepted one after the other along the chain. -/
def plan : Rendezvous.Plan Node.main where
  addresses := [Link.endpoint .toMiddle, backToHead, Link.endpoint .toTail, backToMiddle,
    Link.endpoint .toHead]
  dialer := dialer
  host := Prod.fst
  time a := [Link.endpoint .toMiddle, backToHead, Link.endpoint .toTail, backToMiddle,
    Link.endpoint .toHead].idxOf a
  connects := by decide
  listens := by decide
  accepts := by decide
  mem_addresses := by decide
  waits := by decide

/-- The links of the chain, from the machine of the writing thread to that of the reading one. -/
def links : plan.Links Link where
  address := Link.endpoint
  writer k := k.writer.node
  reader k := k.reader.node
  mem k := by cases k <;> decide
  dialer_eq k := by cases k <;> decide
  host_eq k := by cases k <;> decide

/-- The programs of the chain stop setting up their connections. On the way nobody accepts a wrong
peer, and a program exits exactly if it is refused a connection for the last time; that is the only
obstacle to all links being wired, and if everybody listens in time there is none. -/
theorem chain_startup_wires : (rendezvous Node.main).Halts (fun _ _ => True) ∧
    (∀ s, (rendezvous Node.main).Reachable s → links.Outcome s) ∧
    ∀ s, (rendezvous Node.main).ReachableBy (Rendezvous.InTime Node.main) s →
      (∀ p, s.step Node.main p = none) → links.Wired s :=
  ⟨Rendezvous.halts _, fun _ h => links.outcome h, fun _ h hstuck =>
    links.wired_of_inTime h hstuck⟩

variable {s : Rendezvous.State Node (Endpoint Node)}

/-- When the tail is about to connect to the head, the middle has connected to the head. -/
theorem middle_of_tail (h : (rendezvous Node.main).Reachable s)
    (htail : 3 ≤ (s.party .tail).next) : 3 ≤ (s.party .middle).next := by
  have hback := Rendezvous.Consistent.of_reachable (P := plan) (a := backToMiddle) h (by decide)
  have hconnects := Rendezvous.le_count Node.main htail
    (SocketCall.Connects backToMiddle)
  have hone : ((Node.main .tail).take 3).countP (SocketCall.Connects backToMiddle) = 1 := by decide
  rw [hone] at hconnects
  have hlistens := hback.listening hconnects
  have hlt := Rendezvous.lt_next_of_count (n := 4) (by decide) hlistens
  change 4 < (s.party .middle).next at hlt
  omega

/-- Then the head has listened for this connection. -/
theorem head_of_middle (h : (rendezvous Node.main).Reachable s)
    (hmiddle : 3 ≤ (s.party .middle).next) :
    2 ≤ (s.party .head).next ∧ 0 < s.count Node.main (SocketCall.Connects backToHead) .middle := by
  have hback := Rendezvous.Consistent.of_reachable (P := plan) (a := backToHead) h (by decide)
  have hconnects := Rendezvous.le_count Node.main hmiddle
    (SocketCall.Connects backToHead)
  have hone : ((Node.main .middle).take 3).countP (SocketCall.Connects backToHead) = 1 := by decide
  rw [hone] at hconnects
  exact ⟨Rendezvous.lt_next_of_count (n := 1) (by decide) (hback.listening hconnects), hconnects⟩

/-- The head is open once it has made four calls. -/
theorem open_of_next (h : (rendezvous Node.main).Reachable s)
    (hexited : (s.party .head).exited = false) (hnext : 4 ≤ (s.party .head).next) :
    s.Open (Link.endpoint .toHead) = true := by
  have hs := Rendezvous.Consistent.of_reachable (P := plan) h (links.mem .toHead)
  have hlistens := Rendezvous.le_count Node.main hnext
    (SocketCall.Listens (Link.endpoint .toHead))
  have hone :
      ((Node.main .head).take 4).countP (SocketCall.Listens (Link.endpoint .toHead)) = 1 := by
    decide
  rw [hone] at hlistens
  exact hs.open_of_listens hlistens hexited

/-- After three calls the head can listen for the tail. -/
theorem head_listens (h : (rendezvous Node.main).Reachable s)
    (hexited : (s.party .head).exited = false) (hnext : (s.party .head).next = 3) :
    ∃ s', (rendezvous Node.main).exec s [.head] = some s' ∧
      s'.Open (Link.endpoint .toHead) = true := by
  have hcall : (Node.main .head)[(s.party .head).next]? =
      some (.listen (Link.endpoint .toHead)) := by
    rw [hnext]
    rfl
  have hstep := Rendezvous.step_of_listen hexited hcall (plan.free_of_listens h hcall)
  refine ⟨_, Machine.exec_cons.mpr ⟨_, _, hstep, rfl⟩, ?_⟩
  exact open_of_next (h.next hstep) (by simp) (by simp [hnext])

/-- After two calls the head can accept the connection back of the middle and then listen for the
tail. -/
theorem head_accepts (h : (rendezvous Node.main).Reachable s)
    (hexited : (s.party .head).exited = false) (hnext : (s.party .head).next = 2)
    (hmiddle : 0 < s.count Node.main (SocketCall.Connects backToHead) .middle) :
    ∃ s', (rendezvous Node.main).exec s [.head, .head] = some s' ∧
      s'.Open (Link.endpoint .toHead) = true := by
  have hs := Rendezvous.Consistent.of_reachable (P := plan) (a := backToHead) h (by decide)
  have hcall : (Node.main .head)[(s.party .head).next]? = some (.accept backToHead) := by
    rw [hnext]
    rfl
  have hnone : s.accepted backToHead = [] := by
    have hcount := Rendezvous.count_eq_zero (f := SocketCall.Accepts backToHead) (by decide) hcall
      (by decide)
    rw [← List.length_eq_zero_iff, hs.accepted]
    exact hcount
  have hdialer : plan.dialer backToHead = .middle := by decide
  have hqueue := hs.queue
  rw [hnone, List.nil_append, hdialer] at hqueue
  obtain ⟨n, hn⟩ := Nat.exists_eq_add_of_lt hmiddle
  have hbacklog : s.backlog backToHead = .middle :: List.replicate n .middle := by
    rw [hqueue, ← List.replicate_succ]
    exact congrArg (List.replicate · Node.middle) (by omega)
  have hstep := Rendezvous.step_of_accept hexited hcall hbacklog
  obtain ⟨s', hexec, hopen⟩ := head_listens (h.next hstep) (by simp) (by simp [hnext])
  exact ⟨s', Machine.exec_cons.mpr ⟨_, _, hstep, hexec⟩, hopen⟩

/-- The step is not an attempt to connect that is refused, except one to the head's port. -/
def OthersOpen (s : Rendezvous.State Node (Endpoint Node)) (p : Node) : Prop :=
  match p.main[(s.party p).next]? with
  | some (.connect a _) => a = Link.endpoint .toHead ∨ s.Open a = true
  | _ => True

instance (s : Rendezvous.State Node (Endpoint Node)) (p : Node) : Decidable (OthersOpen s p) := by
  unfold OthersOpen
  split <;> infer_instance

/-- The tail's only attempt to connect to the head can come too early. Whenever it can be made,
though, the head listens or is two steps of its own away from it, and nothing keeps it from taking
them: trying again would be enough. -/
theorem tail_race :
    (∃ s, (rendezvous Node.main).ReachableBy OthersOpen s ∧ (s.party .tail).exited = true) ∧
    ∀ s, (rendezvous Node.main).Reachable s → (∀ p, (s.party p).exited = false) →
      3 ≤ (s.party .tail).next → ∃ n ≤ 2, ∃ s',
        (rendezvous Node.main).exec s (List.replicate n .head) = some s' ∧
          s'.Open (Link.endpoint .toHead) = true := by
  constructor
  · have hrun : (((rendezvous Node.main).execBy OthersOpen .start
        [.middle, .tail, .head, .head, .middle, .middle, .middle, .middle, .tail, .tail, .tail]).map
        fun s => (s.party .tail).exited) = some true := by decide +kernel
    obtain ⟨s, hexec, hexited⟩ := Option.map_eq_some_iff.mp hrun
    exact ⟨s, Machine.ReachableBy.execBy .start hexec, hexited⟩
  · intro s h hexited htail
    obtain ⟨hhead, hmiddle⟩ := head_of_middle h (middle_of_tail h htail)
    rcases Nat.lt_or_ge (s.party .head).next 4 with hlt | hge
    · rcases Nat.lt_or_ge (s.party .head).next 3 with hlt' | hge'
      · obtain ⟨s', hexec, hopen⟩ := head_accepts h (hexited _) (by omega) hmiddle
        exact ⟨2, le_rfl, s', hexec, hopen⟩
      · obtain ⟨s', hexec, hopen⟩ := head_listens h (hexited _) (by omega)
        exact ⟨1, by decide, s', hexec, hopen⟩
    · exact ⟨0, by decide, s, rfl, open_of_next h (hexited _) hge⟩

end TeeReplication.Chain
