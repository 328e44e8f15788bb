import TeeReplication.Authenticators

/-!
# Attestations are written ahead

Two authenticators log every attestation and call `fsync` before they hand it out. If
the file takes the bytes as they are meant, then whatever has been handed out at any
time is in the file, in order, and synced. A crash loses nothing that somebody has.
-/

namespace TeeReplication

section HandOut

variable {ρ : Type} {logReply : ρ → AuthReply → List LogEvent × ρ} {r : ρ}

/-- A reply that is handed out is the first one, right after it has been logged, or one of those
after it. -/
theorem split_handOut {events : List LogEvent} {res res' : AuthReply}
    {more before after : List AuthEvent}
    (h : events.map .log ++ .attested res :: more = before ++ .attested res' :: after) :
    before = events.map .log ∧ res' = res ∨
      ∃ before', before = events.map .log ++ .attested res :: before' ∧
        more = before' ++ .attested res' :: after := by
  induction events generalizing before with
  | nil =>
    cases before with
    | nil =>
      left
      exact ⟨rfl, (AuthEvent.attested.inj (List.cons.inj h).1).symm⟩
    | cons e before =>
      obtain ⟨rfl, hmore⟩ := List.cons.inj h
      exact .inr ⟨before, rfl, hmore⟩
  | cons event events ih =>
    cases before with
    | nil => cases (List.cons.inj h).1
    | cons e before =>
      obtain ⟨rfl, hrest⟩ := List.cons.inj h
      rcases ih hrest with ⟨rfl, hres⟩ | ⟨before', rfl, hmore⟩
      · exact .inl ⟨rfl, hres⟩
      · exact .inr ⟨before', rfl, hmore⟩

/-- These steps of `log_attestation` put exactly these bytes into the file, and the last of them is
`fsync`. -/
structure Durable (events : List LogEvent) (bytes : List UInt8) : Prop where
  /-- The bytes. -/
  appended : fileBytes events = bytes
  /-- They are synced. -/
  synced : events.getLast? = some .fsync

/-- One durable part after another. -/
theorem Durable.append {events events' : List LogEvent} {bytes bytes' : List UInt8}
    (h : Durable events bytes) (h' : Durable events' bytes') :
    Durable (events ++ events') (bytes ++ bytes') where
  appended := by
    rw [fileBytes, List.flatMap_append, ← fileBytes, ← fileBytes, h.appended, h'.appended]
  synced := by rw [List.getLast?_append, h'.synced, Option.some_or]

/-- Every reply is made durable by what is done to log it. -/
def AllDurable (logReply : ρ → AuthReply → List LogEvent × ρ) : ρ → List AuthReply → Prop
  | _, [] => True
  | r, res :: rest =>
    Durable (logReply r res).1 res.bytes ∧ AllDurable logReply (logReply r res).2 rest

/-- When a reply is handed out, everything handed out so far is durable, and nothing else is in the
file. -/
theorem AllDurable.split {rs : List AuthReply} (h : AllDurable logReply r rs)
    {before after : List AuthEvent} {res : AuthReply}
    (hsplit : handOut logReply r rs = before ++ .attested res :: after) :
    Durable (logEvents before) ((attestations before ++ [res]).flatMap AuthReply.bytes) := by
  induction rs generalizing r before with
  | nil => exact absurd hsplit (List.append_ne_nil_of_right_ne_nil _ (List.cons_ne_nil _ _)).symm
  | cons first rs ih =>
    obtain ⟨hfirst, hrest⟩ := h
    rcases split_handOut hsplit with ⟨rfl, rfl⟩ | ⟨before', rfl, hmore⟩
    · rw [logEvents_map, attestations_map]
      simpa using hfirst
    · rw [logEvents_map_append, attestations_map_append]
      have hlater := ih hrest hmore
      have hall := hfirst.append hlater
      exact hall

end HandOut

section Classes

variable {τ ρ : Type} {attest : τ → List UInt8 → τ × Option (List UInt8)} {D : LogDevice}

/-- No call of `write` fails or repeats bytes, from the `k`-th call of `log_attestation` on. -/
def LogDevice.Harmless (D : LogDevice) : ℕ → List AuthReply → Prop
  | _, [] => True
  | k, res :: rest => TeeReplication.Harmless (D.file k) res.bytes 0 ∧ D.Harmless (k + 1) rest

/-- The size of a reply is that of its buffer. -/
theorem size_eq_of_mem_replies {s : τ} {datas : List (List UInt8)} {res : AuthReply}
    (h : res ∈ replies attest s datas) : res.size = res.bytes.length := by
  induction datas generalizing s with
  | nil => cases h
  | cons data datas ih =>
    rw [replies] at h
    split at h
    · cases h
    · rcases List.mem_cons.mp h with rfl | h
      · rfl
      · exact ih h

/-- What a class does to log a reply is one call of `log_attestation`: the loop, and something that
ends with `fsync`. The calls are counted in its state. -/
structure Logs (D : LogDevice) (calls : ρ → ℕ) (logReply : ρ → AuthReply → List LogEvent × ρ) :
    Prop where
  /-- It is one call more. -/
  calls_succ : ∀ r res, calls (logReply r res).2 = calls r + 1
  /-- Its steps. -/
  events_eq : ∀ r res, ∃ last, (logReply r res).1 =
      writeLoop (D.file (calls r)) (buffer res.bytes (D.beyond (calls r))) res.size 0 0 ++ last ∧
    fileBytes last = [] ∧ (∀ e ∈ last, e.request? = none) ∧ last.getLast? = some .fsync

/-- A harmless device takes all replies durably. -/
theorem Logs.allDurable {calls : ρ → ℕ} {logReply : ρ → AuthReply → List LogEvent × ρ}
    (h : Logs D calls logReply) {r : ρ} {rs : List AuthReply} (hD : D.Harmless (calls r) rs)
    (hsize : ∀ res ∈ rs, res.size = res.bytes.length) : AllDurable logReply r rs := by
  induction rs generalizing r with
  | nil => trivial
  | cons res rs ih =>
    obtain ⟨last, hevents, happended, hrequest, hsynced⟩ := h.events_eq r res
    have hrecords := (records_writeLoop_iff (i := 0) (D.beyond (calls r)) happended hrequest).mpr
      hD.1
    have hlater := hD.2
    rw [← h.calls_succ r res] at hlater
    refine ⟨⟨?_, ?_⟩, ih hlater fun res hres => hsize res (List.mem_cons_of_mem _ hres)⟩
    · rw [hevents, hsize res List.mem_cons_self]
      exact hrecords.appended
    · rw [hevents, List.getLast?_append, hsynced, Option.some_or]

/-- `auth_sgx_with_persistency` logs in this way. -/
theorem AuthSgxWithPersistency.logs (D : LogDevice) : Logs D id (logReply D) where
  calls_succ _ _ := rfl
  events_eq _ _ := ⟨[.fsync], rfl, rfl, by simp [LogEvent.request?], rfl⟩

/-- So does `auth_sgx_with_rollback`. -/
theorem AuthSgxWithRollback.logs (D : LogDevice) : Logs D Prod.fst (logReply D) where
  calls_succ _ _ := rfl
  events_eq r _ := ⟨[.getROTECounter r.2, .fsync], rfl, rfl, by simp [LogEvent.request?], rfl⟩

/-- Whenever such a class hands out a reply, everything handed out so far is durable. -/
theorem Logs.durable_of_attested {T : TrustedService τ} {calls : ρ → ℕ}
    {logReply : ρ → AuthReply → List LogEvent × ρ} (h : Logs D calls logReply)
    (A : Authenticator (Connection τ × ρ)) (hA : A.getAttestation = getAttestation T logReply)
    (hT : T.RepliesWith attest) {c : Connection τ} (hrest : c.fd.unread = [])
    {datas : List (List UInt8)} (hdatas : ∀ data ∈ datas, data.length < 2 ^ 31) {r : ρ}
    (hD : D.Harmless (calls r)
      ((replies attest c.service datas).take (Net.sendAll T.sends c.sends datas).2))
    {before after : List AuthEvent} {res : AuthReply}
    (hsplit : (A.session (c, r) datas).trace = before ++ .attested res :: after) :
    Durable (logEvents before) ((attestations before ++ [res]).flatMap AuthReply.bytes) := by
  obtain ⟨htrace, -⟩ := session_spec logReply (r := r) A hA hT hrest datas hdatas
  rw [htrace] at hsplit
  exact (h.allDurable hD fun res hres =>
    size_eq_of_mem_replies (List.mem_of_mem_take hres)).split hsplit

/-- Whenever a reply is handed out in a session, the file holds exactly the replies handed out so
far, in order, and the last thing done to it was `fsync`. -/
theorem attested_in_file (T : TrustedService τ) (D : LogDevice) (hT : T.RepliesWith attest)
    (c : Connection τ) (hrest : c.fd.unread = []) (datas : List (List UInt8))
    (hdatas : ∀ data ∈ datas, data.length < 2 ^ 31)
    (hD : D.Harmless 0
      ((replies attest c.service datas).take (Net.sendAll T.sends c.sends datas).2))
    (cnt : ℤ) (before after : List AuthEvent) (res : AuthReply) :
    (((authSgxWithPersistency T D).session (c, 0) datas).trace =
        before ++ .attested res :: after →
      Durable (logEvents before) ((attestations before ++ [res]).flatMap AuthReply.bytes)) ∧
    (((authSgxWithRollback T D).session (c, 0, cnt) datas).trace =
        before ++ .attested res :: after →
      Durable (logEvents before) ((attestations before ++ [res]).flatMap AuthReply.bytes)) := by
  exact ⟨(AuthSgxWithPersistency.logs D).durable_of_attested _ rfl hT hrest hdatas hD,
    (AuthSgxWithRollback.logs D).durable_of_attested _ rfl hT hrest hdatas hD⟩

end Classes

/-- A file that takes everything at once is harmless. -/
theorem harmless_whole {n : ℕ} {data : List UInt8} (h : data.length ≤ n + 1) :
    Harmless (.whole n) data 0 := by
  intro j _ hlt
  refine ⟨n, rfl, ?_⟩
  cases j with
  | zero => exact List.take_prefix _ _
  | succ j =>
    rw [acceptedBefore] at hlt
    have hwrite : ((LogFile.whole n).writes j).getD 0 = n := rfl
    omega

/-- When the second number is handed out the file holds both. -/
theorem attested_in_file_second : ∃ before after,
    ((authSgxWithPersistency .numbering (.whole 0)).session (⟨0, ⟨[], 0⟩, 7⟩, 0)
        [[1], [2], [3]]).trace = before ++ .attested ⟨1, [8]⟩ :: after ∧
      Durable (logEvents before) [7, 8] := by
  have hdatas : ∀ data ∈ ([[1], [2], [3]] : List (List UInt8)), data.length < 2 ^ 31 := by decide
  obtain ⟨htrace, -⟩ := session_spec (AuthSgxWithPersistency.logReply (.whole 0)) (r := 0)
    (authSgxWithPersistency .numbering (.whole 0)) rfl TrustedService.numbering_repliesWith
    (c := ⟨0, ⟨[], 0⟩, 7⟩) rfl [[1], [2], [3]] hdatas
  rw [TrustedService.numbering_sends] at htrace
  have hD : (LogDevice.whole 0).Harmless 0
      ((replies numberUpTo8 7 [[1], [2], [3]]).take
        (Net.sendAll TrustedService.numbering.sends 0 [[1], [2], [3]]).2) := by
    rw [TrustedService.numbering_sends]
    exact ⟨harmless_whole (by decide), harmless_whole (by decide), trivial⟩
  -- the steps that log the first number, the number itself, and those that log the second one
  refine ⟨(AuthSgxWithPersistency.logReply (.whole 0) 0 ⟨1, [7]⟩).1.map .log ++
    .attested ⟨1, [7]⟩ :: (AuthSgxWithPersistency.logReply (.whole 0) 1 ⟨1, [8]⟩).1.map .log, [],
    ?_, ?_⟩
  · rw [htrace, List.append_assoc]
    rfl
  · have hdurable := (attested_in_file .numbering (.whole 0)
      TrustedService.numbering_repliesWith ⟨0, ⟨[], 0⟩, 7⟩ rfl [[1], [2], [3]] hdatas hD 0
      ((AuthSgxWithPersistency.logReply (.whole 0) 0 ⟨1, [7]⟩).1.map .log ++
        .attested ⟨1, [7]⟩ :: (AuthSgxWithPersistency.logReply (.whole 0) 1 ⟨1, [8]⟩).1.map .log)
      [] ⟨1, [8]⟩).1 (by
        rw [htrace, List.append_assoc]
        rfl)
    have hfirst (rest : List AuthEvent) :
        attestations (.attested ⟨1, [7]⟩ :: rest) = ⟨1, [7]⟩ :: attestations rest := rfl
    rw [attestations_map_append, hfirst, attestations_map] at hdurable
    exact hdurable

end TeeReplication
