import TeeReplication.Raft.Exchange

/-!
# The leader's log and the history of acknowledgements

After any sequence of acknowledgements, of any indices and node ids, the leader's log
holds above the commit index exactly the acknowledgements of the history, cleanup has
reached the index after the commit index and has removed nothing above it, and every
committed index has been acknowledged. When all acknowledgements carry one node id,
the commit index is the one that the whole history gives. The only way in which an
iteration can fail is that every `int` from zero on has been acknowledged: then the
commit loop may come to `INT_MAX` and overflow.
-/

namespace TeeReplication.Raft.Leader

/-- The node ids in the acknowledgements of an index, in the order of their arrival. -/
def votes (acks : List (ℤ × ℤ)) (k : ℤ) : List ℤ := (acks.filter fun a => a.1 = k).map Prod.snd

/-- The votes of a longer history. -/
theorem votes_append (acks acks' : List (ℤ × ℤ)) (k : ℤ) :
    votes (acks ++ acks') k = votes acks k ++ votes acks' k := by simp [votes]

/-- One more acknowledgement adds a vote to its index. -/
theorem votes_concat (acks : List (ℤ × ℤ)) (ackId nodeId k : ℤ) :
    votes (acks ++ [(ackId, nodeId)]) k =
      votes acks k ++ if ackId = k then [nodeId] else [] := by
  rw [votes_append]
  by_cases hk : ackId = k <;> simp [votes, hk]

@[simp] theorem mem_votes {acks : List (ℤ × ℤ)} {k nodeId : ℤ} :
    nodeId ∈ votes acks k ↔ (k, nodeId) ∈ acks := by
  simp [votes]

/-- The first vote of an index is an acknowledgement of it. -/
theorem mem_of_votes_eq_cons {acks : List (ℤ × ℤ)} {k node : ℤ} {rest : List ℤ}
    (h : votes acks k = node :: rest) : (k, node) ∈ acks := by
  rw [← mem_votes, h]
  exact List.mem_cons_self

/-- Every `int` from zero on has been acknowledged. -/
def AllAcked (acks : List (ℤ × ℤ)) : Prop :=
  ∀ i, 0 ≤ i → i ≤ intMax → ∃ nodeId, (i, nodeId) ∈ acks

/-- What the local variables say about the acknowledgements handled so far. -/
structure Sound (acks : List (ℤ × ℤ)) (st : Receiver) : Prop where
  /-- The commit index is at least `-1`. -/
  neg_one_le : -1 ≤ st.s.cmtIdx
  /-- It is less than `INT_MAX`. -/
  cmtIdx_lt : st.s.cmtIdx < intMax
  /-- Cleanup has reached the index after the commit index. -/
  lastCleanup_eq : st.lastCleanup = st.s.cmtIdx + 1
  /-- Every committed index has been acknowledged. -/
  acked : ∀ i, 0 ≤ i → i ≤ st.s.cmtIdx → ∃ nodeId, (i, nodeId) ∈ acks
  /-- No vector is empty. -/
  nonempty : ∀ k, st.raftLog.entry k ≠ some []
  /-- Every key is an `int`. -/
  entry_eq_none : ∀ k, intMax < k → st.raftLog.entry k = none
  /-- Above the commit index every acknowledgement is still in the log. -/
  above : ∀ k, st.s.cmtIdx < k → (st.raftLog.entry k).getD [] = votes acks k
  /-- The next entry cannot be committed. -/
  stop : ∀ node rest, st.raftLog.entry (st.s.cmtIdx + 1) = some (node :: rest) →
    (node :: rest).length ≠ kNodesSize ∧ st.s.lastCmtNode ≠ -1 ∧ st.s.lastCmtNode ≠ node
  /-- The remembered node has acknowledged a committed index. -/
  origin : st.s.lastCmtNode = -1 ∨
    ∃ i, 0 ≤ i ∧ i ≤ st.s.cmtIdx ∧ (i, st.s.lastCmtNode) ∈ acks

/-- What one iteration on an acknowledgement does. -/
structure AckStep (st : Receiver) (ackId nodeId : ℤ) (st' : Receiver) : Prop where
  /-- The commit loop returns and leaves the log alone. -/
  commit : iterateLogAndCommit (st.raftLog.append ackId nodeId) st.s =
    .ok (st.raftLog.append ackId nodeId, st'.s)
  /-- How far it has walked. -/
  walk : CommitWalk (st.raftLog.append ackId nodeId) st.s.cmtIdx st.s.lastCmtNode st'.s
  /-- That is not as far as `INT_MAX`. -/
  lt : st'.s.cmtIdx < intMax
  /-- The cleanup loop returns. -/
  cleanup : ∃ lines, cleanupLog (st.raftLog.append ackId nodeId) st.lastCleanup st'.s =
    .ok ((st'.raftLog, st'.lastCleanup), lines)
  /-- The iteration returns. -/
  result : (onAck st ackId nodeId).result = .ok st'
  /-- Exactly the newly committed entries are removed from the log. -/
  entry_eq : ∀ k, st'.raftLog.entry k =
    if st.s.cmtIdx < k ∧ k ≤ st'.s.cmtIdx then none
    else (st.raftLog.append ackId nodeId).entry k

/-- Appending never leaves an empty vector. -/
theorem append_nonempty {raftLog : InMemLog} (h : ∀ k, raftLog.entry k ≠ some [])
    (ackId nodeId k : ℤ) : (raftLog.append ackId nodeId).entry k ≠ some [] := by
  by_cases hk : k = ackId
  · subst hk
    rw [InMemLog.entry_append_self]
    simp
  · rw [InMemLog.entry_append_of_ne _ hk]
    exact h k

namespace Sound

variable {acks : List (ℤ × ℤ)} {st st' : Receiver} {ackId nodeId : ℤ}

/-- Nothing has been acknowledged before the loop. -/
theorem init : Sound [] Receiver.init where
  neg_one_le := le_rfl
  cmtIdx_lt := by decide
  lastCleanup_eq := rfl
  acked _ hi hle := absurd (hi.trans hle) (by decide)
  nonempty k := by simp [Receiver.init]
  entry_eq_none k _ := by simp [Receiver.init]
  above k _ := by simp [Receiver.init, votes]
  stop node rest h := by simp [Receiver.init] at h
  origin := Or.inl rfl

/-- An acknowledged index above the commit index has its votes in the log. -/
theorem entry_eq_votes (hst : Sound acks st) {k : ℤ} (hk : st.s.cmtIdx < k)
    (hack : (k, nodeId) ∈ acks) :
    ∃ node rest, votes acks k = node :: rest ∧ st.raftLog.entry k = some (node :: rest) := by
  have habove := hst.above k hk
  cases hvotes : votes acks k with
  | nil =>
    rw [← mem_votes, hvotes] at hack
    cases hack
  | cons node rest =>
    refine ⟨node, rest, rfl, ?_⟩
    cases hentry : st.raftLog.entry k with
    | none => rw [hentry, hvotes] at habove; cases habove
    | some vector => rw [hentry, hvotes] at habove; exact congrArg some habove

/-- A key above the commit index has been acknowledged. -/
theorem exists_mem_of_hasKey (hst : Sound acks st) {k : ℤ} (hk : st.s.cmtIdx < k)
    (hkey : st.raftLog.hasKey k = true) : ∃ nodeId, (k, nodeId) ∈ acks := by
  obtain ⟨vector, hentry⟩ := InMemLog.hasKey_eq_true.mp hkey
  have habove := hst.above k hk
  rw [hentry, Option.getD_some] at habove
  cases vector with
  | nil => exact absurd hentry (hst.nonempty k)
  | cons node rest => exact ⟨node, mem_of_votes_eq_cons habove.symm⟩

/-- If the index after the commit index has been acknowledged, its first vote is of another node
than the remembered one, which has acknowledged a committed index. -/
theorem exists_blocking (hst : Sound acks st) (hack : (st.s.cmtIdx + 1, nodeId) ∈ acks) :
    ∃ node rest, votes acks (st.s.cmtIdx + 1) = node :: rest ∧
      (node :: rest).length ≠ kNodesSize ∧ st.s.lastCmtNode ≠ node ∧
      ∃ i, 0 ≤ i ∧ i ≤ st.s.cmtIdx ∧ (i, st.s.lastCmtNode) ∈ acks := by
  obtain ⟨node, rest, hvotes, hentry⟩ := hst.entry_eq_votes (by omega) hack
  obtain ⟨hsize, hneg, hne⟩ := hst.stop node rest hentry
  exact ⟨node, rest, hvotes, hsize, hne, hst.origin.resolve_left hneg⟩

/-- The first acknowledgement of index zero commits it. -/
theorem nonneg_of_mem (hst : Sound acks st) (hack : (0, nodeId) ∈ acks) : 0 ≤ st.s.cmtIdx := by
  by_contra hneg
  have hlo := hst.neg_one_le
  have hnext : st.s.cmtIdx + 1 = 0 := by omega
  obtain ⟨-, -, -, -, -, i, hi, hic, -⟩ := hst.exists_blocking (hnext ▸ hack)
  omega

/-- Above the commit index the log with one more acknowledgement holds the votes of the longer
history. -/
theorem above_append (hst : Sound acks st) (ackId nodeId : ℤ) {k : ℤ} (hk : st.s.cmtIdx < k) :
    ((st.raftLog.append ackId nodeId).entry k).getD [] = votes (acks ++ [(ackId, nodeId)]) k := by
  rw [votes_concat, ← hst.above k hk]
  by_cases hka : k = ackId
  · subst hka
    rw [InMemLog.entry_append_self, if_pos rfl, Option.getD_some]
  · rw [InMemLog.entry_append_of_ne _ hka, if_neg (Ne.symm hka), List.append_nil]

/-- The nodes in a vector above the commit index have acknowledged its index. -/
theorem mem_of_entry_append (hst : Sound acks st) {k node : ℤ} {vector : List ℤ}
    (hk : st.s.cmtIdx < k) (hentry : (st.raftLog.append ackId nodeId).entry k = some vector)
    (hnode : node ∈ vector) : (k, node) ∈ acks ++ [(ackId, nodeId)] := by
  have habove := hst.above_append ackId nodeId hk
  rw [hentry, Option.getD_some] at habove
  rwa [← mem_votes, ← habove]

/-- An iteration on an index up to `INT_MAX` appends no larger one. -/
theorem entry_append_eq_none (hst : Sound acks st) (hid : ackId ≤ intMax) {k : ℤ}
    (hk : intMax < k) : (st.raftLog.append ackId nodeId).entry k = none := by
  rw [InMemLog.entry_append_of_ne _ (by omega)]
  exact hst.entry_eq_none k hk

/-- The commit loop walks to some state and returns it, unless it has passed `INT_MAX`. -/
theorem exists_walk (hst : Sound acks st) (hid : ackId ≤ intMax) (nodeId : ℤ) :
    ∃ s, CommitWalk (st.raftLog.append ackId nodeId) st.s.cmtIdx st.s.lastCmtNode s ∧
      s.cmtIdx ≤ intMax ∧ iterateLogAndCommit (st.raftLog.append ackId nodeId) st.s =
        if s.cmtIdx < intMax then .ok (st.raftLog.append ackId nodeId, s)
        else .error .overflow :=
  iterateLogAndCommit_walk (fun k _ => append_nonempty hst.nonempty ackId nodeId k)
    (fun _ hk => hst.entry_append_eq_none hid hk) hst.cmtIdx_lt.le st.s.lastCmtNode

/-- An iteration whose commit loop returns does not fault. -/
theorem exists_ackStep_of_walk (hst : Sound acks st) {s : State}
    (hwalk : CommitWalk (st.raftLog.append ackId nodeId) st.s.cmtIdx st.s.lastCmtNode s)
    (hlt : s.cmtIdx < intMax) (hcommit : iterateLogAndCommit (st.raftLog.append ackId nodeId) st.s =
      .ok (st.raftLog.append ackId nodeId, s)) :
    ∃ st', AckStep st ackId nodeId st' ∧ st'.s = s := by
  obtain ⟨raftLog', lines, hcleanup, hentry⟩ :=
    hwalk.cleansUp hlt (append_nonempty hst.nonempty ackId nodeId)
  rw [← hst.lastCleanup_eq] at hcleanup
  exact ⟨⟨s, raftLog', s.cmtIdx + 1⟩, ⟨hcommit, hwalk, hlt, ⟨lines, hcleanup⟩,
    onAck_result_of_commit hcommit hcleanup, hentry⟩, rfl⟩

/-- When the commit loop has walked to `INT_MAX`, everything has been acknowledged. -/
theorem allAcked_of_walk (hst : Sound acks st) {s : State}
    (hwalk : CommitWalk (st.raftLog.append ackId nodeId) st.s.cmtIdx st.s.lastCmtNode s)
    (hs : intMax ≤ s.cmtIdx) : AllAcked (acks ++ [(ackId, nodeId)]) := by
  intro i hi hle
  by_cases hci : i ≤ st.s.cmtIdx
  · obtain ⟨node, hnode⟩ := hst.acked i hi hci
    exact ⟨node, List.mem_append_left _ hnode⟩
  · obtain ⟨node, rest, hentry, -⟩ := hwalk.passed i (by omega) (by omega)
    exact ⟨node, hst.mem_of_entry_append (by omega) hentry List.mem_cons_self⟩

/-- An iteration does not fault, unless everything has been acknowledged and it overflows. -/
theorem exists_ackStep_or (hst : Sound acks st) (hid : ackId ≤ intMax) (nodeId : ℤ) :
    (∃ st', AckStep st ackId nodeId st') ∨
      iterateLogAndCommit (st.raftLog.append ackId nodeId) st.s = .error .overflow ∧
        AllAcked (acks ++ [(ackId, nodeId)]) := by
  obtain ⟨s, hwalk, -, hrun⟩ := hst.exists_walk hid nodeId
  by_cases hlt : s.cmtIdx < intMax
  · obtain ⟨st', hstep, -⟩ := hst.exists_ackStep_of_walk hwalk hlt (hrun.trans (if_pos hlt))
    exact Or.inl ⟨st', hstep⟩
  · exact Or.inr ⟨hrun.trans (if_neg hlt), hst.allAcked_of_walk hwalk (not_lt.mp hlt)⟩

/-- An iteration adds its acknowledgement to the history. -/
theorem step (hst : Sound acks st) (hid : ackId ≤ intMax)
    (hstep : AckStep st ackId nodeId st') : Sound (acks ++ [(ackId, nodeId)]) st' := by
  have hlo := hst.neg_one_le
  have hle := hstep.walk.le
  have hkept (k : ℤ) (hk : st'.s.cmtIdx < k) :
      st'.raftLog.entry k = (st.raftLog.append ackId nodeId).entry k := by
    rw [hstep.entry_eq k, if_neg (by omega)]
  refine ⟨by omega, hstep.lt, ?_, ?_, ?_, ?_, ?_, ?_, ?_⟩
  · obtain ⟨lines, hcleanup⟩ := hstep.cleanup
    obtain ⟨raftLog', lines', hcleanup', -⟩ :=
      hstep.walk.cleansUp hstep.lt (append_nonempty hst.nonempty ackId nodeId)
    rw [← hst.lastCleanup_eq, hcleanup] at hcleanup'
    exact congrArg (fun r => r.1.2) (Except.ok.inj hcleanup')
  · intro i hi his
    by_cases hci : i ≤ st.s.cmtIdx
    · obtain ⟨node, hnode⟩ := hst.acked i hi hci
      exact ⟨node, List.mem_append_left _ hnode⟩
    · obtain ⟨node, rest, hentry, -⟩ := hstep.walk.passed i (by omega) his
      exact ⟨node, hst.mem_of_entry_append (by omega) hentry List.mem_cons_self⟩
  · intro k
    rw [hstep.entry_eq k]
    split
    · exact fun h => by cases h
    · exact append_nonempty hst.nonempty ackId nodeId k
  · intro k hk
    rw [hstep.entry_eq k, hst.entry_append_eq_none hid hk, ite_self]
  · intro k hk
    rw [hkept k hk]
    exact hst.above_append ackId nodeId (by omega)
  · intro node rest hentry
    rw [hkept _ (by omega)] at hentry
    exact hstep.walk.stop node rest hentry
  · rcases hstep.walk.last with hlast | ⟨-, i, rest, hci, his, hentry, -⟩
    · rw [hlast]
      rcases hst.origin with hneg | ⟨i, hi, hic, hmem⟩
      · exact Or.inl hneg
      · exact Or.inr ⟨i, hi, by omega, List.mem_append_left _ hmem⟩
    · exact Or.inr ⟨i, by omega, his,
        hst.mem_of_entry_append (by omega) hentry List.mem_cons_self⟩

/-- The cleanup before the receiver returns removes nothing. -/
theorem cleanupLog_eq (hst : Sound acks st) :
    ∃ lines, cleanupLog st.raftLog st.lastCleanup st.s =
      .ok ((st.raftLog, st.lastCleanup), lines) := by
  obtain ⟨raftLog', lines, hcleanup, hentry⟩ :=
    (CommitWalk.stay hst.stop).cleansUp (s := st.s) hst.cmtIdx_lt hst.nonempty
  have hsame : raftLog' = st.raftLog := by
    apply InMemLog.ext_entry
    intro k
    rw [hentry k, if_neg (by omega)]
  rw [← hst.lastCleanup_eq, hsame] at hcleanup
  exact ⟨lines, hcleanup⟩

/-- While all acknowledgements carry one node id, the commit index is the frontier of the
acknowledged indices. -/
theorem isFrontier (hst : Sound acks st) {q : ℤ} (hq : ∀ a ∈ acks, a.2 = q) :
    IsFrontier (members (acks.map Prod.fst)) st.s.cmtIdx := by
  refine ⟨hst.neg_one_le, fun i hi hle => ?_, fun hnext => ?_⟩
  · obtain ⟨nodeId, hmem⟩ := hst.acked i hi hle
    exact List.mem_map.mpr ⟨_, hmem, rfl⟩
  · obtain ⟨⟨k, nodeId⟩, hmem, hk⟩ := List.mem_map.mp hnext
    change k = st.s.cmtIdx + 1 at hk
    subst hk
    obtain ⟨node, rest, hvotes, -, hne, i, -, -, hlast⟩ := hst.exists_blocking hmem
    exact hne ((hq _ hlast).trans (hq _ (mem_of_votes_eq_cons hvotes)).symm)

end Sound

/-- The pairs in a list, as the receiver reads them. -/
def pairs (acks : List (Int32 × Int32)) : List (ℤ × ℤ) :=
  acks.map fun a => (a.1.toInt, a.2.toInt)

/-- The result of `secure_recv` on the frame of an acknowledgement. -/
def recvAck (h : Hmac) (a : Int32 × Int32) : RecvResult :=
  recvFrame (Follower.ackFrame h a.1.toInt a.2.toInt)

/-- A receiver of the leader that starts and is delivered acknowledgements, with everything it
does. -/
def ackRun (h : Hmac) (acks : List (Int32 × Int32)) : Process Receiver × List Event :=
  (receiver h).feed (EventLoop.enter .init) (acks.map (recvAck h))

/-- The acknowledgements that it receives before it returns. -/
def receivedAcks (h : Hmac) (acks : List (Int32 × Int32)) : List (Int32 × Int32) :=
  acks.take ((receiver h).handled (EventLoop.enter .init) (acks.map (recvAck h)))

/-- One more acknowledgement for a receiver that waits for it. -/
theorem ackRun_concat {h : Hmac} {acks : List (Int32 × Int32)} {a : Int32 × Int32}
    {st' : Receiver} (hwait : (receiver h).Waiting (ackRun h acks).1 = true)
    (hstep : AckStep (ackRun h acks).1.state a.1.toInt a.2.toInt st') :
    (ackRun h (acks ++ [a])).1 = EventLoop.enter st' := by
  have hbody (st : Receiver) : receiverBody h st (recvAck h a) = _ :=
    receiverBody_recvFrame (isInt_toInt a.1) (isInt_toInt a.2)
  rw [ackRun, EventLoop.feed_map_concat, ← ackRun, EventLoop.offer_of_waiting _ hwait,
    receiver_body, hbody, Traced.mk_ok_bind, Traced.bind_of_ok hstep.result]
  rfl

/-- One more acknowledgement for a receiver that has returned. -/
theorem ackRun_concat_of_not_waiting {h : Hmac} {acks : List (Int32 × Int32)}
    (hwait : ¬ (receiver h).Waiting (ackRun h acks).1 = true) (a : Int32 × Int32) :
    ackRun h (acks ++ [a]) = ackRun h acks := by
  rw [ackRun, EventLoop.feed_map_concat]
  exact EventLoop.offer_of_not_waiting _ hwait _

/-- One more acknowledgement for a receiver whose iteration on it overflows. -/
theorem ackRun_concat_of_error {h : Hmac} {acks : List (Int32 × Int32)} {a : Int32 × Int32}
    (hwait : (receiver h).Waiting (ackRun h acks).1 = true) {e : Fault}
    (herror : (onAck (ackRun h acks).1.state a.1.toInt a.2.toInt).result = .error e) :
    (ackRun h (acks ++ [a])).1 = ⟨.crashed, (ackRun h acks).1.state⟩ := by
  have hbody (st : Receiver) : receiverBody h st (recvAck h a) = _ :=
    receiverBody_recvFrame (isInt_toInt a.1) (isInt_toInt a.2)
  rw [ackRun, EventLoop.feed_map_concat, ← ackRun, EventLoop.offer_of_waiting _ hwait,
    receiver_body, hbody, Traced.mk_ok_bind, Traced.bind_of_error herror]
  rfl

/-- The acknowledgements that come after the receiver has stopped do not matter. -/
theorem ackRun_receivedAcks (h : Hmac) (acks : List (Int32 × Int32)) :
    ackRun h (receivedAcks h acks) = ackRun h acks := by
  rw [ackRun, receivedAcks, List.map_take, EventLoop.feed_take_handled]
  rfl

/-- An `Int32` is at most `INT_MAX`. -/
theorem toInt_le_intMax (x : Int32) : x.toInt ≤ intMax := Int.le_sub_one_of_lt (isInt_toInt x).2

/-- How a receiver stands that has received some acknowledgements. -/
inductive Stands (acks : List (Int32 × Int32)) (p : Process Receiver) : Prop
  /-- It runs, and its local variables are sound. -/
  | running (status : p.status = .running) (sound : Sound (pairs acks) p.state)
  /-- The commit loop on the last one has overflowed, everything having been acknowledged. -/
  | overflowed {before : List (Int32 × Int32)} {a : Int32 × Int32} (last : acks = before ++ [a])
      (status : p.status = .crashed) (sound : Sound (pairs before) p.state)
      (commit : iterateLogAndCommit (p.state.raftLog.append a.1.toInt a.2.toInt) p.state.s =
        .error .overflow)
      (all : AllAcked (pairs acks))

/-- The local variables are sound for what has come before an overflow. -/
theorem Stands.exists_sound {acks : List (Int32 × Int32)} {p : Process Receiver}
    (h : Stands acks p) : ∃ before, before <+: acks ∧ Sound (pairs before) p.state := by
  cases h with
  | running _ sound => exact ⟨acks, List.prefix_rfl, sound⟩
  | overflowed last _ sound => exact ⟨_, last ▸ List.prefix_append _ _, sound⟩

/-- Whatever acknowledgements are delivered, the receiver stands with those it has received. -/
theorem stands_receivedAcks (h : Hmac) (acks : List (Int32 × Int32)) :
    Stands (receivedAcks h acks) (ackRun h acks).1 := by
  rw [← ackRun_receivedAcks]
  refine (receiver h).handled_induction (recvAck h)
    (P := fun read => Stands read (ackRun h read).1) (.running rfl .init) ?_ acks
  rintro read a hread hwait
  cases hread with
  | overflowed last status =>
    cases status.symm.trans (waiting_iff.mp hwait).1
  | running status sound =>
    have hpairs : pairs (read ++ [a]) = pairs read ++ [(a.1.toInt, a.2.toInt)] := by simp [pairs]
    rcases sound.exists_ackStep_or (toInt_le_intMax a.1) a.2.toInt with
      ⟨st', hstep⟩ | ⟨hcommit, hall⟩
    · rw [ackRun_concat hwait hstep]
      refine .running rfl ?_
      rw [hpairs]
      exact sound.step (toInt_le_intMax a.1) hstep
    · rw [ackRun_concat_of_error hwait (onAck_result_of_error hcommit)]
      refine .overflowed rfl rfl sound hcommit ?_
      rw [hpairs]
      exact hall

/-- A receiver receives all acknowledgements delivered to it unless it has committed the last
request or overflowed. -/
theorem receivedAcks_eq_or {h : Hmac} {acks : List (Int32 × Int32)}
    (hrunning : (ackRun h acks).1.status = .running) :
    receivedAcks h acks = acks ∨ (ackRun h acks).1.state.s.cmtIdx + 1 = nbRequests := by
  by_cases hlast : (ackRun h acks).1.state.s.cmtIdx + 1 = nbRequests
  · exact Or.inr hlast
  · left
    have hall := EventLoop.handled_of_waiting _ (waiting_iff.mpr ⟨hrunning, hlast⟩)
    rw [receivedAcks, hall, List.length_map, List.take_length]

/-- A receiver that waits has sound local variables for all acknowledgements delivered to it. -/
theorem sound_of_waiting {h : Hmac} {acks : List (Int32 × Int32)}
    (hwait : (receiver h).Waiting (ackRun h acks).1 = true) :
    Sound (pairs acks) (ackRun h acks).1.state := by
  obtain ⟨hrunning, hlast⟩ := waiting_iff.mp hwait
  have hstands := stands_receivedAcks h acks
  rw [(receivedAcks_eq_or hrunning).resolve_right hlast] at hstands
  cases hstands with
  | running status sound => exact sound
  | overflowed last status => cases status.symm.trans hrunning

/-- One more acknowledgement does not lower the commit index. -/
theorem cmtIdx_le_ackRun_concat (h : Hmac) (acks : List (Int32 × Int32)) (a : Int32 × Int32) :
    (ackRun h acks).1.state.s.cmtIdx ≤ (ackRun h (acks ++ [a])).1.state.s.cmtIdx := by
  by_cases hwait : (receiver h).Waiting (ackRun h acks).1 = true
  · rcases (sound_of_waiting hwait).exists_ackStep_or (toInt_le_intMax a.1) a.2.toInt with
      ⟨st', hstep⟩ | ⟨hcommit, -⟩
    · rw [ackRun_concat hwait hstep]
      exact hstep.walk.le
    · rw [ackRun_concat_of_error hwait (onAck_result_of_error hcommit)]
  · rw [ackRun_concat_of_not_waiting hwait]

/-- The receiver has stopped at an overflow, in the commit loop on the last acknowledgement that it
has received, and it has received one of every `int` from zero on. -/
structure Overflowed (h : Hmac) (acks : List (Int32 × Int32)) : Prop where
  /-- It has stopped at a fault. -/
  status : (ackRun h acks).1.status = .crashed
  /-- The commit loop on the last acknowledgement, and with it the iteration, has no result. -/
  result : ∃ before a raftLog, receivedAcks h acks = before ++ [a] ∧
    (logAck (ackRun h acks).1.state a.1.toInt a.2.toInt).result = .ok raftLog ∧
    iterateLogAndCommit raftLog (ackRun h acks).1.state.s = .error .overflow ∧
    (onAck (ackRun h acks).1.state a.1.toInt a.2.toInt).result = .error .overflow
  /-- What it has received. -/
  all : AllAcked (pairs (receivedAcks h acks))

/-- A receiver runs with sound local variables, or it has overflowed. -/
theorem running_or_overflowed (h : Hmac) (acks : List (Int32 × Int32)) :
    Overflowed h acks ∨ (ackRun h acks).1.status = .running ∧
      Sound (pairs (receivedAcks h acks)) (ackRun h acks).1.state := by
  cases stands_receivedAcks h acks with
  | running status sound => exact Or.inr ⟨status, sound⟩
  | overflowed last status _ commit all =>
    exact Or.inl ⟨status, ⟨_, _, _, last, logAck_result _ _ _, commit,
      onAck_result_of_error commit⟩, all⟩

/-- One iteration on an acknowledgement overflows, everything having been acknowledged, or its
cleanup removes no entry above the commit index. -/
def RemovesCommitted (acks : List (Int32 × Int32)) (st : Receiver) (a : Int32 × Int32) : Prop :=
  ∃ raftLog, (logAck st a.1.toInt a.2.toInt).result = .ok raftLog ∧
    (iterateLogAndCommit raftLog st.s = .error .overflow ∧ AllAcked (pairs (acks ++ [a])) ∨
      ∃ s raftLog' lastCleanup lines, iterateLogAndCommit raftLog st.s = .ok (raftLog, s) ∧
        st.s.cmtIdx ≤ s.cmtIdx ∧
        cleanupLog raftLog st.lastCleanup s = .ok ((raftLog', lastCleanup), lines) ∧
        ∀ k, raftLog.hasKey k = true → raftLog'.hasKey k = false → k ≤ s.cmtIdx)

/-- From sound local variables, cleanup removes no entry above the commit index. -/
theorem Sound.removesCommitted {acks : List (Int32 × Int32)} {st : Receiver}
    (hst : Sound (pairs acks) st) (a : Int32 × Int32) : RemovesCommitted acks st a := by
  refine ⟨_, logAck_result st a.1.toInt a.2.toInt, ?_⟩
  rcases hst.exists_ackStep_or (toInt_le_intMax a.1) a.2.toInt with ⟨st', hstep⟩ | ⟨hcommit, hall⟩
  · right
    obtain ⟨lines, hcleanup⟩ := hstep.cleanup
    refine ⟨st'.s, st'.raftLog, st'.lastCleanup, lines, hstep.commit, hstep.walk.le, hcleanup, ?_⟩
    intro k hkey hgone
    by_contra hk
    rw [InMemLog.hasKey, hstep.entry_eq k, if_neg (by omega)] at hgone
    rw [InMemLog.hasKey, hgone] at hkey
    cases hkey
  · exact Or.inl ⟨hcommit, by simpa [pairs] using hall⟩

/-- The acknowledgements of one node. -/
theorem snd_of_mem_pairs {nodeId : Int32} {ackIds : List Int32} {a : ℤ × ℤ}
    (ha : a ∈ pairs (ackIds.map (·, nodeId))) : a.2 = nodeId.toInt := by
  obtain ⟨b, hb, rfl⟩ := List.mem_map.mp ha
  obtain ⟨id, -, rfl⟩ := List.mem_map.mp hb
  rfl

/-- An index that the node acknowledges. -/
theorem fst_mem_pairs {ackIds : List Int32} {id : Int32} (nodeId : Int32) (hid : id ∈ ackIds) :
    id.toInt ∈ (pairs (ackIds.map (·, nodeId))).map Prod.fst :=
  List.mem_map_of_mem (f := Prod.fst)
    (List.mem_map_of_mem (f := fun a : Int32 × Int32 => (a.1.toInt, a.2.toInt))
      (List.mem_map_of_mem (f := (·, nodeId)) hid))

/-- A receiver that runs and has received acknowledgements of one node has not received one of the
index after its commit index. -/
theorem isFrontier_of_running {h : Hmac} {nodeId : Int32} {ackIds : List Int32}
    (sound : Sound (pairs (receivedAcks h (ackIds.map (·, nodeId))))
      (ackRun h (ackIds.map (·, nodeId))).1.state) :
    IsFrontier (members ((pairs (receivedAcks h (ackIds.map (·, nodeId)))).map Prod.fst))
      (ackRun h (ackIds.map (·, nodeId))).1.state.s.cmtIdx := by
  refine sound.isFrontier (q := nodeId.toInt) fun a ha => ?_
  rw [receivedAcks, ← List.map_take] at ha
  exact snd_of_mem_pairs ha

/-- When one node acknowledges every `int` from zero on, and `nb_requests` first of all, then the
receiver never is at the commit index at which it returns, and overflows. -/
theorem overflowed_of_all_acked (h : Hmac) (nodeId : Int32) {first : Int32} {ackIds : List Int32}
    (hfirst : first.toInt = nbRequests)
    (hall : ∀ i, 0 ≤ i → i ≤ intMax → ∃ id ∈ ackIds, id.toInt = i) :
    Overflowed h ((first :: ackIds).map (·, nodeId)) := by
  rcases running_or_overflowed h ((first :: ackIds).map (·, nodeId)) with
    hover | ⟨status, sound⟩
  · exact hover
  · exfalso
    have hlo := sound.neg_one_le
    have hlt := sound.cmtIdx_lt
    refine (isFrontier_of_running sound).next_notMem ?_
    rcases receivedAcks_eq_or status with hreceived | hlast
    · -- it has received an acknowledgement of every index that it can have come to
      obtain ⟨id, hid, hnext⟩ := hall _ (by omega) (Int.add_one_le_of_lt hlt)
      rw [hreceived, mem_members, ← hnext]
      exact fst_mem_pairs nodeId (List.mem_cons_of_mem first hid)
    · -- it has received the first acknowledgement, of the index at which it would return
      rw [hlast]
      cases hreceived : receivedAcks h ((first :: ackIds).map (·, nodeId)) with
      | nil =>
        rw [← ackRun_receivedAcks, hreceived] at hlast
        exact absurd (show (-1 : ℤ) + 1 = nbRequests from hlast) (by norm_num [nbRequests])
      | cons a rest =>
        have hprefix : a :: rest <+: (first :: ackIds).map (·, nodeId) :=
          hreceived ▸ List.take_prefix _ _
        obtain rfl : a = (first, nodeId) := (List.cons_prefix_cons.mp hprefix).1
        exact List.mem_cons.mpr (Or.inl hfirst.symm)

/-- The indices up to another. -/
def idsUpTo (last : ℤ) : List Int32 := (upTo last).map Int32.ofInt

theorem exists_mem_idsUpTo {i last : ℤ} (hi : 0 ≤ i) (hle : i ≤ last) (hlast : last ≤ intMax) :
    ∃ id ∈ idsUpTo last, id.toInt = i := by
  unfold intMax at hlast
  exact ⟨Int32.ofInt i, List.mem_map_of_mem (Int.mem_range_iff.mpr ⟨hi, by omega⟩),
    Int32.toInt_ofInt_of_le (by omega) (by omega)⟩

/-- The acknowledgements of every index up to another by one node, after one of `nb_requests`. -/
def acksPastLast (last : ℤ) : List (Int32 × Int32) :=
  (Int32.ofInt nbRequests :: idsUpTo last).map (·, 1)

theorem overflowed_acksPastLast (h : Hmac) : Overflowed h (acksPastLast intMax) := by
  have hfirst : (Int32.ofInt nbRequests).toInt = nbRequests :=
    Int32.toInt_ofInt_of_le (le_trans (by decide) nbRequests_pos.le) nbRequests_lt
  have hall (i : ℤ) (hi : 0 ≤ i) (hle : i ≤ intMax) : ∃ id ∈ idsUpTo intMax, id.toInt = i :=
    exists_mem_idsUpTo hi hle le_rfl
  rw [acksPastLast]
  exact overflowed_of_all_acked h 1 hfirst hall

/-- For every sequence of acknowledgements delivered to a receiver of the leader, it has overflowed
after an acknowledgement of every `int` from zero on, or it has not stopped at a fault, cleanup has
reached the index after the commit index, every committed index has been acknowledged, no vector is
empty, neither the next iteration, on any acknowledgement, nor the return removes an entry above the
commit index, and the commit index does not go down. -/
theorem log_invariant (h : Hmac) (acks : List (Int32 × Int32)) :
    Overflowed h acks ∨ (ackRun h acks).1.status = .running ∧
    (receivedAcks h acks = acks ∨ (ackRun h acks).1.state.s.cmtIdx + 1 = nbRequests) ∧
    (ackRun h acks).1.state.lastCleanup = (ackRun h acks).1.state.s.cmtIdx + 1 ∧
    (∀ i, 0 ≤ i → i ≤ (ackRun h acks).1.state.s.cmtIdx →
      ∃ nodeId, (i, nodeId) ∈ pairs (receivedAcks h acks)) ∧
    (∀ k, (ackRun h acks).1.state.raftLog.entry k ≠ some []) ∧
    (∀ a, RemovesCommitted (receivedAcks h acks) (ackRun h acks).1.state a) ∧
    (∀ x, receiverHead (ackRun h acks).1.state = some x →
      ∃ last, x.result = .ok last ∧ last.raftLog = (ackRun h acks).1.state.raftLog) ∧
    ∀ a, (ackRun h acks).1.state.s.cmtIdx ≤ (ackRun h (acks ++ [a])).1.state.s.cmtIdx := by
  rcases running_or_overflowed h acks with hover | ⟨status, sound⟩
  · exact Or.inl hover
  · refine Or.inr ⟨status, receivedAcks_eq_or status, sound.lastCleanup_eq, sound.acked,
      sound.nonempty, sound.removesCommitted, fun x hhead => ?_, cmtIdx_le_ackRun_concat h acks⟩
    obtain ⟨lines, hcleanup⟩ := sound.cleanupLog_eq
    unfold receiverHead at hhead
    split at hhead
    · rw [hcleanup] at hhead
      obtain rfl := Option.some.inj hhead
      exact ⟨_, rfl, rfl⟩
    · cases hhead

/-- A receiver that one node has sent an acknowledgement of every `int` has not come to the end of
the iteration on the last one it received. -/
theorem log_invariant_overflow :
    (ackRun zeroHmac (acksPastLast intMax)).1.status = .crashed ∧
      ∃ before a, receivedAcks zeroHmac (acksPastLast intMax) = before ++ [a] ∧
        (onAck (ackRun zeroHmac (acksPastLast intMax)).1.state
          a.1.toInt a.2.toInt).result = .error .overflow := by
  have hover := overflowed_acksPastLast zeroHmac
  obtain ⟨before, a, -, hlast, -, -, hresult⟩ := hover.result
  exact ⟨hover.status, before, a, hlast, hresult⟩

/-- For every sequence of acknowledgements of one node that is delivered to a receiver of the
leader, it has overflowed after an acknowledgement of every `int` from zero on, or the index after
its commit index is the least one that has not been acknowledged. -/
theorem single_node_commit (h : Hmac) (nodeId : Int32) (ackIds : List Int32) :
    Overflowed h (ackIds.map (·, nodeId)) ∨
    (ackRun h (ackIds.map (·, nodeId))).1.status = .running ∧
    (receivedAcks h (ackIds.map (·, nodeId)) = ackIds.map (·, nodeId) ∨
      (ackRun h (ackIds.map (·, nodeId))).1.state.s.cmtIdx + 1 = nbRequests) ∧
    IsLeast {i | 0 ≤ i ∧ i ∉ (pairs (receivedAcks h (ackIds.map (·, nodeId)))).map Prod.fst}
      ((ackRun h (ackIds.map (·, nodeId))).1.state.s.cmtIdx + 1) := by
  rcases running_or_overflowed h (ackIds.map (·, nodeId)) with hover | ⟨status, sound⟩
  · exact Or.inl hover
  · exact Or.inr ⟨status, receivedAcks_eq_or status, (isFrontier_of_running sound).isLeast⟩

/-- When the receiver has overflowed, the index after the commit index has been acknowledged. -/
theorem single_node_commit_overflow :
    (ackRun zeroHmac (acksPastLast intMax)).1.status = .crashed ∧
      ¬ IsLeast {i | 0 ≤ i ∧
          i ∉ (pairs (receivedAcks zeroHmac (acksPastLast intMax))).map Prod.fst}
        ((ackRun zeroHmac (acksPastLast intMax)).1.state.s.cmtIdx + 1) := by
  have hcrashed := (overflowed_acksPastLast zeroHmac).status
  refine ⟨hcrashed, fun hleast => hleast.1.2 ?_⟩
  cases stands_receivedAcks zeroHmac (acksPastLast intMax) with
  | running status => cases hcrashed.symm.trans status
  | overflowed _ _ sound _ all =>
    have hlt := sound.cmtIdx_lt
    obtain ⟨nodeId, hmem⟩ := all _ hleast.1.1 (by omega)
    exact List.mem_map.mpr ⟨_, hmem, rfl⟩

end TeeReplication.Raft.Leader
