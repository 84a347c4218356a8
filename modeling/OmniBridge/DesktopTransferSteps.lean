import OmniBridge.DesktopTransfers

/-! What a step of the transfer manager can do. Each call is inverted once: which calls a
task goes on to, which effect has which origin, which tasks it spawns, and what it keeps. -/

namespace OmniBridge.Desktop.Files

open List Option

def Ending.isFresh (call : Ending) : Bool :=
  match call.stage with
  | .lookup | .transition => true
  | _ => false

def Ending.Aborts (call : Ending) : Prop := call.isFresh ∧ call.next ≠ .completed

namespace Job

variable {Fp : Type}

def inserts : Job Fp → Option (TransferRecord Fp)
  | .offerFile _ _ (.inserting r) | .onOffer _ _ _ (.inserting r) => some r
  | _ => none

def enters : Job Fp → Option (TransferId × TransferState)
  | .approval request _ _ (.activating _) => some (request.transferId, .transferring)
  | .onAccept _ id _ (.activating _ _) => some (id, .transferring)
  | .receive id _ .verifying => some (id, .verifying)
  | .ending ⟨id, next, _, .transition, _⟩ _ _ => some (id, next)
  | _ => none

def challenges : Job Fp → Option (TransferId × StreamChallenge)
  | .onAccept _ id _ (.challenging _ challenge) | .onReady _ id _ (.challenging challenge) =>
    some (id, challenge)
  | _ => none

def records : Job Fp → Option (TransferId × Option StreamChallenge)
  | .approval request _ _ (.recording challenge) => some (request.transferId, challenge)
  | _ => none

def takes : Job Fp → Option TransferId
  | .approval request _ _ .discarding => some request.transferId
  | .ending ⟨id, _, _, .takeTemp, _⟩ _ _ => some id
  | _ => none

def removes : Job Fp → Option String
  | .approval _ _ _ (.removing path) | .ending ⟨_, _, _, .remove path, _⟩ _ _ => some path
  | _ => none

def opens : Job Fp → Option (TransferId × Nat)
  | .approval request _ seq .opening => some (request.transferId, seq)
  | _ => none

def consumes : Job Fp → Option TransferId
  | .acceptStream _ _ id _ .checking | .dial id .taking => some id
  | _ => none

def stores : Job Fp → Option (TransferId × String)
  | .receive id _ (.storing path) => some (id, path)
  | _ => none

def discloses : Job Fp → Option StreamChallenge
  | .approval _ _ _ (.accepting challenge) => challenge
  | .onAccept _ _ _ (.readying _ challenge) => some challenge
  | _ => none

def isStream : Job Fp → Bool
  | .acceptStream _ _ _ _ _ | .dial _ _ | .runStream _ | .send _ _ _ | .receive _ _ _ => true
  | _ => false

inductive Starts : Job Fp → Prop
  | offerFile (peer : Fp) (path : String) : Starts (.offerFile peer path .authorizing)
  | onOffer (ctx : Context Fp) (id : TransferId) (offer : FileOffer) :
    Starts (.onOffer ctx id offer .authorizing)
  | onAccept (ctx : Context Fp) (id : TransferId) (bytes : Bytes) :
    Starts (.onAccept ctx id bytes .owning)
  | onReady (ctx : Context Fp) (id : TransferId) (bytes : Bytes) :
    Starts (.onReady ctx id bytes .owning)
  | onPeerEnded (ctx : Context Fp) (id : TransferId) (reason : FailureReason) {next : TransferState}
      (hnext : next = .cancelled ∨ next = .failed) : Starts (.onPeerEnded ctx id reason next)
  | onComplete (ctx : Context Fp) (id : TransferId) : Starts (.onComplete ctx id)
  | cancel (id : TransferId) : Starts (.cancel id)
  | cancelPeer (peer : Fp) (reason : FailureReason) : Starts (.cancelPeer peer reason)
  | reap (now : Nat) : Starts (.reap now)
  | acceptStream (peer : Fp) (profile : Profile) (id : TransferId) (mac : Bytes) :
      Starts (.acceptStream peer profile id mac .authorizing)

/-- Which calls a task goes on to. A transfer is completed only at the peer's word or by the
stream that stored its file. -/
def LeadsTo : Job Fp → Job Fp → Prop
  | .offerFile peer path _, .offerFile peer' path' _ => peer' = peer ∧ path' = path
  | .onOffer ctx id offer _, .onOffer ctx' id' offer' _ => ctx' = ctx ∧ id' = id ∧ offer' = offer
  | .approval request session seq _, .approval request' session' seq' _ =>
    request' = request ∧ session' = session ∧ seq' = seq
  | .onAccept ctx id bytes _, .onAccept ctx' id' bytes' _ => ctx' = ctx ∧ id' = id ∧ bytes' = bytes
  | .onReady ctx id bytes _, .onReady ctx' id' bytes' _ => ctx' = ctx ∧ id' = id ∧ bytes' = bytes
  | .acceptStream peer profile id mac _, .acceptStream peer' profile' id' mac' _ =>
    peer' = peer ∧ profile' = profile ∧ id' = id ∧ mac' = mac
  | .acceptStream _ _ id _ _, .runStream id' => id' = id
  | .dial id _, .dial id' _ => id' = id
  | .dial id _, .runStream id' => id' = id
  | .runStream id, .send id' _ stage => id' = id ∧ stage = .opening
  | .runStream id, .receive id' _ stage => id' = id ∧ stage = .opening
  | .send id plan _, .send id' plan' _ => id' = id ∧ plan' = plan
  | .receive id plan _, .receive id' plan' _ => id' = id ∧ plan' = plan
  | .receive id _ stage, .ending call _ _ =>
    call.isFresh ∧ call.id = id ∧ (call.next = .completed → ∃ path, stage = .storing path)
  | .onComplete _ id, .ending call _ _ => call.isFresh ∧ call.id = id
  | .onPeerEnded _ _ _ next, .ending call _ _ => call.isFresh ∧ call.next = next
  | .ending call _ _, .ending call' _ _ =>
    call'.id = call.id ∧ call'.next = call.next ∨ call'.Aborts
  | _, .ending call _ _ => call.Aborts
  | .ending _ _ _, .checking _ _ _ | .checking _ _ _, .checking _ _ _
  | .cancelPeer _ _, .checking _ _ _
  | .reap _, .checking _ _ _ => True
  | _, .done => True
  | _, _ => False

end Job

section Advanced

variable {Fp : Type}

def FileControl.challenge : FileControl → Option Bytes
  | .accept _ challenge | .ready _ challenge => some challenge
  | _ => none

theorem StreamChallenge.eq_of_bytes {c c' : StreamChallenge} (h : c.bytes = c'.bytes) : c = c' := by
  obtain ⟨_, _⟩ := c
  subst h
  rfl

def Effect.From (s : TransferManager Fp) (job : Job Fp) : Effect Fp → Prop
  | .nothing | .detach _ | .number | .draw _ => True
  | .send _ message =>
    ∀ c : StreamChallenge, message.challenge = some c.bytes → job.discloses = some c
  | .insert r => job.inserts = some r
  | .transition id next _ => job.enters = some (id, next) ∧ s.canTransition id next
  | .setChallenge id challenge => job.challenges = some (id, challenge) ∧ s.transfers.contains id
  | .setTemp id path challenge =>
    job.records = some (id, challenge) ∧ path = tempName id ∧ s.transfers.contains id
  | .takeTemp id => job.takes = some id
  | .consume id | .takeChallenge id => job.consumes = some id
  | .streamOpened id => job = .dial id .marking
  | .streamClosed id _ => (∃ plan failure, job = .send id plan (.closing failure)) ∨
      ∃ plan failure, job = .receive id plan (.closing failure)
  | .setStored id path => job.stores = some (id, path)
  | .openTemp id creator => job.opens = some (id, creator) ∧ (s.disk.openTemp id creator).isSome
  | .remove path => job.removes = some path
  | .truncate file =>
    ∃ id plan, job = .receive id plan .opening ∧ plan.temp.bind s.disk.names = some file
  | .write file bytes => ∃ id plan, job = .receive id plan (.writing file bytes)
  | .rename temp path => ∃ id plan, job = .receive id plan .promoting ∧ plan.temp = some temp ∧
      s.disk.promotes temp plan.filename = some path

inductive Spawned (host : Host Fp) (job : Job Fp) : Task Fp → Prop
  | approval (ctx : Context Fp) (id : TransferId) (offer : FileOffer) (r : TransferRecord Fp)
      (hjob : job = .onOffer ctx id offer (.inserting r)) :
      Spawned host job
        { job := .approval ⟨id, ctx.peer, r.filename, offer.sizeBytes, offer.mimeType⟩ ctx.session
            r.seq .asking }
  | dial (id : TransferId) (hdials : host.role = .dialer ∨ ∃ ctx bytes challenge,
    job = .onReady ctx id bytes (.challenging challenge)) : Spawned host job
    { job := .dial id .starting }

structure Advanced (host : Host Fp) (s : TransferManager Fp) (task : Task Fp) (job : Job Fp)
    (out : Outcome Fp) : Prop where
  leads : job.LeadsTo out.task.job
  origin : out.effect.From s job
  spawned : ∀ task' ∈ out.spawned, Spawned host job task'
  keeps : job.isStream = false → out.task = task.goes out.task.job
  handler : out.task.handler = task.handler

end Advanced

section Inversion

variable {Fp : Type} {host : Host Fp} {s : TransferManager Fp} {task : Task Fp} {input : Input}
  {out : Outcome Fp} {id : TransferId}

theorem fail_next_ne (id : TransferId) (reason) : (fail id reason).next ≠ .completed := by
  cases reason <;> simp [fail, FailureReason.isCancellation]

theorem fail_aborts (id : TransferId) (reason) : (fail id reason).Aborts :=
  ⟨rfl, fail_next_ne id reason⟩

theorem leadsTo_failAll {job : Job Fp} (doomed : List (TransferId × FailureReason))
    (toCheck : List (TransferId × Fp))
    (h : ∀ call doomed' toCheck', call.Aborts → job.LeadsTo (.ending call doomed' toCheck'))
    (hcheck : ∀ id peer toCheck', job.LeadsTo (.checking id peer toCheck'))
    (hdone : job.LeadsTo .done) : job.LeadsTo (failAll doomed toCheck) := by
  cases doomed with
  | cons => exact h _ _ _ (fail_aborts _ _)
  | nil =>
    cases toCheck with
    | cons => exact hcheck _ _ _
    | nil => exact hdone

theorem leadsTo_ite {job job' job'' : Job Fp} {p} [Decidable p] (h : job.LeadsTo job')
    (h' : job.LeadsTo job'') : job.LeadsTo (if p then job' else job'') := by
  split
  · exact h
  · exact h'

namespace TransferManager

variable {peer : Fp} {job job' : Job Fp} {effect : Effect Fp} {ctx : Context Fp}

theorem goes_advanced (h : goes task job' = some out) (hlead : job.LeadsTo job') :
    Advanced host s task job out := by
  cases h
  exact ⟨hlead, trivial, fun _ h => absurd h not_mem_nil, fun _ => rfl, rfl⟩

theorem does_advanced (h : some { effect := effect, task := task.goes job' } = some out)
    (hlead : job.LeadsTo job') (horig : effect.From s job) : Advanced host s task job out := by
  cases h
  exact ⟨hlead, horig, fun _ h => absurd h not_mem_nil, fun _ => rfl, rfl⟩

theorem spawns_advanced {spawned}
    (h : some { effect := effect, task := task.goes job', spawned := spawned } = some out)
    (hlead : job.LeadsTo job') (horig : effect.From s job)
    (hspawn : ∀ task' ∈ spawned, Spawned host job task') : Advanced host s task job out := by
  cases h
  exact ⟨hlead, horig, hspawn, fun _ => rfl, rfl⟩

theorem notes_advanced {task'} (h : some { effect := effect, task := task' } = some out)
    (hlead : job.LeadsTo task'.job) (horig : effect.From s job) (hstr : job.isStream)
    (hhand : task'.handler = task.handler) : Advanced host s task job out := by
  cases h
  exact ⟨hlead, horig, fun _ h => absurd h not_mem_nil, fun hnot =>
    by simp [hstr] at hnot, hhand⟩

theorem from_sendControl (session : Nat) {message} (ok : Bool)
    (h : ∀ c : StreamChallenge, message.challenge = some c.bytes → job.discloses = some c) :
    (s.sendControl session message ok).From s job := by
  unfold sendControl
  split
  · exact h
  · trivial

theorem challenge_body (call : Ending) : call.body.challenge = none := by
  unfold Ending.body
  split
  · split <;> rfl
  · rfl

theorem spawned_dial
    (hdials : host.role = .dialer ∨ ∃ ctx bytes challenge,
      job = .onReady ctx id bytes (.challenging challenge)) :
    ∀ task' ∈ [({ job := .dial id .starting } : Task Fp)], Spawned host job task' := by
  intro _ htask'
  obtain rfl := mem_singleton.mp htask'
  exact .dial id hdials

theorem offerFile_advanced [DecidableEq Fp] {path : String} {stage}
    (h : s.offerFile host task peer path stage input = some out) :
    Advanced host s task (.offerFile peer path stage) out := by
  unfold offerFile at h
  split at h
  · exact goes_advanced h (leadsTo_ite ⟨rfl, rfl⟩ trivial)
  · split at h
    · exact goes_advanced h ⟨rfl, rfl⟩
    · exact does_advanced h trivial trivial
  · split at h
    · exact goes_advanced h trivial
    · split at h
      · exact goes_advanced h ⟨rfl, rfl⟩
      · exact goes_advanced h trivial
  · exact does_advanced h ⟨rfl, rfl⟩ trivial
  · exact goes_advanced h trivial
  · exact does_advanced h ⟨rfl, rfl⟩ rfl
  · split at h
    · exact does_advanced h trivial nofun
    · exact goes_advanced h ⟨rfl, (nofun : TransferState.failed ≠ .completed)⟩
  · cases h

theorem onOffer_advanced [DecidableEq Fp] {offer stage}
    (h : s.onOffer host task ctx id offer stage input = some out) :
    Advanced host s task (.onOffer ctx id offer stage) out := by
  unfold onOffer at h
  split at h
  · exact goes_advanced h ⟨rfl, rfl, rfl⟩
  · split at h
    · exact goes_advanced h ⟨rfl, rfl, rfl⟩
    · split at h <;> exact goes_advanced h ⟨rfl, rfl, rfl⟩
  · split at h
    · exact goes_advanced h ⟨rfl, rfl, rfl⟩
    · split at h
      · exact does_advanced h ⟨rfl, rfl, rfl⟩ trivial
      · exact goes_advanced h ⟨rfl, rfl, rfl⟩
  · refine spawns_advanced h trivial rfl ?_
    intro _ htask'
    obtain rfl := mem_singleton.mp htask'
    exact .approval ctx id offer _ rfl
  · exact does_advanced h trivial (from_sendControl _ _ nofun)
  · cases h

theorem approval_advanced {request : IncomingOffer Fp} {session seq stage}
    (h : s.approval host task request session seq stage input = some out) :
    Advanced host s task (.approval request session seq stage) out := by
  have hfail : ∀ reason, (Job.approval request session seq stage).LeadsTo
      (failed request.transferId reason) :=
    fail_aborts request.transferId
  unfold approval at h
  split at h
  case h_1 | h_2 =>
    split at h
    · exact goes_advanced h ⟨rfl, rfl, rfl⟩
    · exact goes_advanced h (hfail _)
  · split at h
    · rename_i hopen
      exact does_advanced h ⟨rfl, rfl, rfl⟩ ⟨rfl, (Bool.and_eq_true_iff.mp hopen).2⟩
    · exact goes_advanced h (hfail _)
  · exact does_advanced h ⟨rfl, rfl, rfl⟩ trivial
  · exact goes_advanced h (hfail _)
  · split at h
    · rename_i hcont
      exact does_advanced h ⟨rfl, rfl, rfl⟩ ⟨rfl, rfl, hcont⟩
    · exact goes_advanced h trivial
  · split at h
    · rename_i hcan
      exact does_advanced h ⟨rfl, rfl, rfl⟩ ⟨rfl, hcan⟩
    · exact goes_advanced h ⟨rfl, rfl, rfl⟩
  · split at h
    · exact does_advanced h ⟨rfl, rfl, rfl⟩ rfl
    · exact goes_advanced h trivial
  · exact does_advanced h trivial rfl
  · split at h
    · rename_i challenge _ _
      refine spawns_advanced h trivial ?_ ?_
      · intro c hc
        cases challenge with
        | none => exact absurd (congrArg length (some.inj hc)) (by rw [c.length_eq]; decide)
        | some => exact congrArg some (StreamChallenge.eq_of_bytes (some.inj hc))
      · split
        · exact fun _ hnil => absurd hnil not_mem_nil
        · rename_i hrole
          exact spawned_dial (.inl hrole)
    · exact goes_advanced h (hfail _)
  · cases h

variable {bytes : Bytes}

theorem onAccept_advanced [DecidableEq Fp] {stage : OnAcceptStage}
    (h : s.onAccept host task ctx id bytes stage input = some out) :
    Advanced host s task (.onAccept ctx id bytes stage) out := by
  unfold onAccept at h
  split at h
  · split at h
    · exact goes_advanced h trivial
    · exact goes_advanced h ⟨rfl, rfl, rfl⟩
    · split at h
      · exact goes_advanced h (fail_aborts id _)
      · exact goes_advanced h ⟨rfl, rfl, rfl⟩
  · exact does_advanced h ⟨rfl, rfl, rfl⟩ trivial
  · exact goes_advanced h trivial
  · split at h
    · rename_i hcont
      exact does_advanced h ⟨rfl, rfl, rfl⟩ ⟨rfl, hcont⟩
    · exact goes_advanced h trivial
  · split at h
    · rename_i hcan
      split at h
      · exact does_advanced h ⟨rfl, rfl, rfl⟩ ⟨rfl, hcan⟩
      · rename_i hrole
        exact spawns_advanced h trivial ⟨rfl, hcan⟩ (spawned_dial (.inl hrole))
    · exact goes_advanced h trivial
  · exact does_advanced h trivial (from_sendControl _ _ fun _ hc =>
      congrArg some (StreamChallenge.eq_of_bytes (some.inj hc)))
  · cases h

theorem onReady_advanced [DecidableEq Fp] {stage}
    (h : s.onReady host task ctx id bytes stage input = some out) :
    Advanced host s task (.onReady ctx id bytes stage) out := by
  unfold onReady at h
  split at h
  · split at h
    · exact goes_advanced h trivial
    · exact goes_advanced h trivial
    · split at h
      · exact goes_advanced h (fail_aborts id _)
      · exact goes_advanced h ⟨rfl, rfl, rfl⟩
  · split at h
    · rename_i hcont
      exact spawns_advanced h trivial ⟨rfl, hcont⟩ (spawned_dial (.inr ⟨ctx, bytes, _, rfl⟩))
    · exact goes_advanced h trivial
  · cases h

variable {reason : FailureReason}

theorem onPeerEnded_advanced [DecidableEq Fp] {next : TransferState}
    (h : s.onPeerEnded task ctx id reason next input = some out) :
    Advanced host s task (.onPeerEnded ctx id reason next) out := by
  unfold onPeerEnded at h
  split at h
  · exact goes_advanced h (leadsTo_ite ⟨rfl, rfl⟩ trivial)
  · cases h

theorem onComplete_advanced [DecidableEq Fp] (h : s.onComplete task ctx id input = some out) :
    Advanced host s task (.onComplete ctx id) out := by
  unfold onComplete at h
  split at h
  · exact goes_advanced h (leadsTo_ite ⟨rfl, rfl⟩ trivial)
  · cases h

theorem cancel_advanced (h : s.cancel task id input = some out) :
    Advanced host s task (.cancel id) out := by
  unfold cancel at h
  split at h
  · exact goes_advanced h (leadsTo_ite (fail_aborts id _) trivial)
  · cases h

theorem cancelPeer_advanced [DecidableEq Fp] (h : s.cancelPeer task peer reason input = some out) :
    Advanced host s task (.cancelPeer peer reason) out := by
  unfold cancelPeer at h
  split at h
  · exact goes_advanced h
      (leadsTo_failAll _ _ (fun _ _ _ hne => hne) (fun _ _ _ => trivial) trivial)
  · cases h

theorem reapOnce_advanced {now : Nat} (h : s.reapOnce task now input = some out) :
    Advanced host s task (.reap now) out := by
  unfold reapOnce at h
  split at h
  · exact goes_advanced h
      (leadsTo_failAll _ _ (fun _ _ _ hne => hne) (fun _ _ _ => trivial) trivial)
  · cases h

variable {toCheck : List (TransferId × Fp)}

theorem checking_advanced (h : checking task id toCheck input = some out) :
    Advanced host s task (.checking id peer toCheck) out := by
  unfold checking at h
  split at h
  · refine goes_advanced h (leadsTo_ite ?_ (fail_aborts id _))
    exact leadsTo_failAll _ _ (fun _ _ _ hne => hne) (fun _ _ _ => trivial) trivial
  · cases h

theorem ending_advanced {call : Ending} {doomed}
    (h : s.ending task call doomed toCheck call.stage input = some out) :
    Advanced host s task (.ending call doomed toCheck) out := by
  have hall : (Job.ending call doomed toCheck).LeadsTo (failAll doomed toCheck) :=
    leadsTo_failAll doomed toCheck (fun _ _ _ hne => .inr hne) (fun _ _ _ => trivial) trivial
  have hsame : ∀ stage tell, (Job.ending call doomed toCheck).LeadsTo
      (.ending { call with stage := stage, tell := tell } doomed toCheck) := fun _ _ =>
        .inl ⟨rfl, rfl⟩
  obtain ⟨id, next, _, stage, tell⟩ := call
  match stage, input, h with
  | .lookup, .go, h => exact goes_advanced h (hsame _ _)
  | .transition, .go, h =>
    by_cases hcan : s.canTransition id next
    · exact does_advanced ((if_pos hcan).symm.trans h) (hsame _ _) ⟨rfl, hcan⟩
    · exact goes_advanced ((if_neg hcan).symm.trans h) hall
  | .takeTemp, .go, h =>
    simp only [ending] at h
    split at h
    · exact does_advanced h (hsame _ _) rfl
    · exact goes_advanced h (hsame _ _)
  | .remove path, .go, h => exact does_advanced h (hsame _ _) rfl
  | .tell, .outcome ok, h =>
    refine does_advanced h hall ?_
    cases tell with
    | none => trivial
    | some =>
      refine from_sendControl _ _ ?_
      intro c hc
      rw [challenge_body] at hc
      cases hc

theorem acceptStream_advanced [DecidableEq Fp] {profile : Profile} {mac stage}
    (h : s.acceptStream host task peer profile id mac stage input = some out) :
    Advanced host s task (.acceptStream peer profile id mac stage) out := by
  unfold acceptStream at h
  split at h
  · exact goes_advanced h ⟨rfl, rfl, rfl, rfl⟩
  · split at h
    · exact goes_advanced h ⟨rfl, rfl, rfl, rfl⟩
    · exact notes_advanced h ⟨rfl, rfl, rfl, rfl⟩ rfl rfl rfl
  · exact notes_advanced h trivial trivial rfl rfl
  · exact notes_advanced h (leadsTo_ite rfl trivial) trivial rfl rfl
  · cases h

theorem dialAndRun_advanced {stage} (h : s.dialAndRun task id stage input = some out) :
    Advanced host s task (.dial id stage) out := by
  have hfail : ∀ reason, (Job.dial id stage : Job Fp).LeadsTo (failed id reason) := fail_aborts id
  unfold dialAndRun at h
  split at h
  case h_1 | h_3 | h_4 | h_6 =>
    split at h
    · exact goes_advanced h rfl
    · exact goes_advanced h (hfail _)
  · split at h
    · exact notes_advanced h rfl rfl rfl rfl
    · exact goes_advanced h trivial
  · exact goes_advanced h (hfail _)
  · exact does_advanced h rfl rfl
  · cases h

theorem runStream_advanced (h : s.runStream task id input = some out) :
    Advanced host s task (.runStream id) out := by
  unfold runStream at h
  split at h
  · split at h
    · exact goes_advanced h trivial
    · refine notes_advanced h ?_ trivial rfl rfl
      split <;> exact ⟨rfl, rfl⟩
  · cases h

variable {plan : StreamPlan}

theorem runSend_advanced {stage} (h : s.runSend task id plan stage input = some out) :
    Advanced host s task (.send id plan stage) out := by
  have hfail : ∀ reason, (Job.send id plan stage : Job Fp).LeadsTo (failed id reason) :=
    fail_aborts id
  unfold runSend at h
  split at h
  case h_3 | h_4 | h_5 | h_6 | h_8 | h_9 => exact goes_advanced h ⟨rfl, rfl⟩
  · split at h
    · exact goes_advanced h ⟨rfl, rfl⟩
    · exact goes_advanced h (hfail _)
  · split at h
    · exact goes_advanced h ⟨rfl, rfl⟩
    · cases h
  · split at h
    · exact goes_advanced h ⟨rfl, rfl⟩
    · split at h
      · exact notes_advanced h ⟨rfl, rfl⟩ trivial rfl rfl
      · cases h
  · refine does_advanced h ?_ (.inl ⟨plan, _, rfl⟩)
    split
    · trivial
    · exact ⟨rfl, rfl⟩
    · exact hfail _
  · split at h
    · exact goes_advanced h trivial
    · split at h
      · exact goes_advanced h (hfail _)
      · exact goes_advanced h ⟨rfl, rfl⟩
  · cases h

theorem runReceive_advanced {stage : ReceiveStage}
    (h : s.runReceive host task id plan stage input = some out) :
    Advanced host s task (.receive id plan stage) out := by
  have hfail : ∀ reason, (Job.receive id plan stage : Job Fp).LeadsTo (failed id reason) :=
    fun reason => ⟨rfl, rfl, fun heq => absurd heq (fail_next_ne id reason)⟩
  unfold runReceive at h
  split at h
  case h_2 | h_4 | h_5 | h_6 | h_8 | h_10 | h_11 | h_12 => exact goes_advanced h ⟨rfl, rfl⟩
  · split at h
    · rename_i hfile
      exact does_advanced h ⟨rfl, rfl⟩ ⟨id, plan, rfl, (filter_eq_some_iff.mp hfile).1⟩
    · exact goes_advanced h (hfail _)
  · split at h
    · exact notes_advanced h ⟨rfl, rfl⟩ trivial rfl rfl
    · cases h
  · split at h
    · exact does_advanced h ⟨rfl, rfl⟩ ⟨id, plan, rfl⟩
    · exact goes_advanced h ⟨rfl, rfl⟩
  · split at h
    · exact goes_advanced h ⟨rfl, rfl⟩
    · cases h
  · refine does_advanced h ?_ (.inr ⟨plan, _, rfl⟩)
    split
    · exact ⟨rfl, rfl⟩
    · exact hfail _
  · split at h
    · exact goes_advanced h ⟨rfl, rfl⟩
    · exact goes_advanced h (hfail _)
  · split at h
    · rename_i hcan
      exact does_advanced h (leadsTo_ite ⟨rfl, rfl⟩ (hfail _)) ⟨rfl, hcan⟩
    · exact goes_advanced h trivial
  · split at h
    · rename_i hpath
      obtain ⟨_, htemp, hmap⟩ := bind_eq_some_iff.mp (filter_eq_some_iff.mp hpath).1
      obtain ⟨_, hprom, heq⟩ := map_eq_some_iff.mp hmap
      cases heq
      exact notes_advanced h ⟨rfl, rfl⟩ ⟨id, plan, rfl, htemp, hprom⟩ rfl rfl
    · exact goes_advanced h (hfail _)
  · exact does_advanced h ⟨rfl, rfl, fun _ => ⟨_, rfl⟩⟩ rfl
  · cases h

theorem advance_advanced [DecidableEq Fp] (h : s.advance host task input = some out) :
    Advanced host s task task.job out := by
  unfold advance at h
  split at h <;> rename_i hjob <;> rw [hjob]
  · exact offerFile_advanced h
  · exact onOffer_advanced h
  · exact approval_advanced h
  · exact onAccept_advanced h
  · exact onReady_advanced h
  · exact onPeerEnded_advanced h
  · exact onComplete_advanced h
  · exact cancel_advanced h
  · exact cancelPeer_advanced h
  · exact reapOnce_advanced h
  · exact checking_advanced h
  · exact ending_advanced h
  · exact acceptStream_advanced h
  · exact dialAndRun_advanced h
  · exact runStream_advanced h
  · exact runSend_advanced h
  · exact runReceive_advanced h
  · cases h

end TransferManager

end Inversion

end OmniBridge.Desktop.Files
