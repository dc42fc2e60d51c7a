import ColdSigner.Proofs.SigningOutcome
/-!
# Where a call to sign stands

A dialogue may be left between its requests, while the channel serves another one, and be taken up
again (`Dialogue.step`). A call to sign is then in one of a few places, each of them with what the
call sends next and where it goes on from there (`Dialogue.Stands`).
-/
namespace ColdSigner

open HostCall

namespace Dialogue

variable {σ α β γ : Type}

/-- One turn of a dialogue that has waited so long for the channel: a request with all of its
commands, or a pause. If the budget of a request is used up while it waits, it is not sent. -/
def step (link : Link σ) (waited : Nat) : Dialogue α → σ → Dialogue α × σ
  | done result, state => (done result, state)
  | request commands limit budget next, state =>
      if Link.within budget waited then
        let (outcome, after) := link.perform limit budget commands waited [] state
        (next outcome, after)
      else (next .expired, state)
  | wait _ next, state => (next, state)

/-- A turn that comes at once leads to where the dialogue leads. -/
theorem run_step (link : Link σ) (dialogue : Dialogue α) (state : σ) :
    (dialogue.step link 0 state).1.run link (dialogue.step link 0 state).2 =
      dialogue.run link state := by
  cases dialogue with
  | done result => rfl
  | request commands limit budget next =>
      have hStart : Link.within budget 0 = true := by cases budget <;> simp [Link.within]
      rw [step, if_pos hStart]
      rfl
  | wait time next => rfl

theorem bind_assoc (dialogue : Dialogue α) (f : α → Dialogue β) (g : β → Dialogue γ) :
    (dialogue.bind f).bind g = dialogue.bind fun result => (f result).bind g := by
  induction dialogue with
  | done result => rfl
  | request commands limit budget next ih =>
      exact congrArg (request commands limit budget) (funext ih)
  | wait time next ih => exact congrArg (wait time) ih

end Dialogue

/-- What a request without a budget tells its call. -/
def Outcome.told : Outcome → Except HostError Bytes
  | ended result _ => result
  | expired => .error .userTimeout

/-- A place between two requests of a call to sign. -/
inductive CallPlace where
  /-- The account is asked for next. -/
  | starting
  /-- The request to sign is opened next. -/
  | opening
  /-- The device is asked next how far the request has come. -/
  | waiting
  /-- The time of the user has run out, and the request is released next. -/
  | releasing
  /-- The signature is fetched next. -/
  | fetching
  /-- The signature is there, and the request is released next. -/
  | finishing
  | ended (result : Except HostError SignedTx)

/-- These commands open a request to sign with this identifier. -/
inductive OpensRequest (id : TxId) : List Bytes → Prop where
  | hash (path : DerivationPath) :
      OpensRequest id (Instruction.signHash.commands
        (Message.toBytes (⟨path, id⟩ : HashSignRequest)))
  | transaction {path : DerivationPath} {tx : Bytes} {unsigned : UnsignedTx}
      (hDecode : UnsignedTx.decode tx = .ok (unsigned, id))
      (hLength : (path.toBytes ++ tx).length ≤ maxPayload) :
      OpensRequest id (Instruction.signTx.commands
        (Message.toBytes (⟨path, tx⟩ : TxSignRequest)))

namespace CallPlace

/-- What a call sends from a place, and whether the time of the user counts. -/
def Sends (id : TxId) : CallPlace → List Bytes → Option Nat → Prop
  | starting, commands, budget =>
      budget = none ∧ ∃ request : AccountRequest, request.display = false ∧
        commands = Instruction.getAccount.commands (Message.toBytes request)
  | opening, commands, budget => budget = none ∧ OpensRequest id commands
  | waiting, commands, _ => commands = [Instruction.txGetInfo.command []]
  | releasing, commands, budget | finishing, commands, budget =>
      budget = none ∧ commands = [Instruction.txComplete.command []]
  | fetching, commands, budget =>
      budget = none ∧ commands = [Instruction.txGetSignature.command []]
  | ended _, _, _ => False

/-- What may become of the request from a place. The device opens the request that the host has
sent, or it refuses. -/
def Allows (id : TxId) : CallPlace → Outcome → Prop
  | opening, outcome =>
      (∃ error, outcome.told = .error error) ∨
        outcome.told = .ok (Output.state (.review 0) id).data
  | _, _ => True

/-- Where a call goes on from a place, by what has become of its request. -/
inductive Leads (id : TxId) : CallPlace → Outcome → CallPlace → Prop where
  | opens {outcome : Outcome} : Leads id .starting outcome .opening
  | waits {outcome : Outcome} : Leads id .opening outcome .waiting
  | asks {outcome : Outcome} : Leads id .waiting outcome .waiting
  | givesUp {outcome : Outcome} : Leads id .waiting outcome .releasing
  | releases {outcome : Outcome} : Leads id .releasing outcome (.ended (.error .userTimeout))
  | fetches {data : Bytes} {time : Nat} {info : TxInfo}
      (hRead : DeviceHandle.readMessage data = .ok info) (hState : info.state = .signed)
      (hTxId : info.txId = id) : Leads id .waiting (.ended (.ok data) time) .fetching
  | finishes {outcome : Outcome} : Leads id .fetching outcome .finishing
  | ends {place : CallPlace} {outcome : Outcome} {result : Except HostError SignedTx}
      (hPlace : place ≠ .releasing) : Leads id place outcome (.ended result)

end CallPlace

/-- A call to sign stands at a place: this is what it sends next, and it goes on from there to a
place where it stands then. -/
def Dialogue.Stands (id : TxId) (limit : Nat) :
    Dialogue (Except HostError SignedTx) → CallPlace → Prop
  | .done result, place => place = .ended result
  | .request commands most budget next, place =>
      most = limit ∧ place.Sends id commands budget ∧
        ∀ outcome, place.Allows id outcome →
          ∃ after, CallPlace.Leads id place outcome after ∧ (next outcome).Stands id limit after
  | .wait _ next, place => next.Stands id limit place

/-- A call that has ended sends nothing more. -/
theorem Dialogue.Stands.run_eq {σ : Type} {id : TxId} {limit : Nat}
    {dialogue : Dialogue (Except HostError SignedTx)} {result : Except HostError SignedTx}
    (hStands : dialogue.Stands id limit (.ended result)) (link : Link σ) (state : σ) :
    dialogue.run link state = (result, state) := by
  induction dialogue with
  | done found =>
      obtain rfl := CallPlace.ended.inj hStands
      rfl
  | request commands most budget next ih => exact hStands.2.1.elim
  | wait time next ih => exact ih hStands

/-- A call that signs the request with this identifier. -/
inductive DeviceHandle.Signs (handle : DeviceHandle) (id : TxId) : HostCall SignedTx → Prop where
  | transaction (path : DerivationPath) {tx : Bytes} {unsigned : UnsignedTx} (time : Nat)
      (hDecode : UnsignedTx.decode tx = .ok (unsigned, id)) :
      Signs handle id (handle.signTransaction path tx time)
  | hash (path : DerivationPath) (time : Nat) : Signs handle id (handle.signHash path id time)

namespace HostCall

variable {α β : Type} {call : HostCall α} {commands : List Bytes} {limit : Nat}
  {budget : Option Nat} {result : Outcome → Except HostError α}

/-- What follows a call that sends one request and is done with what becomes of it. -/
theorem run_bind_of_request
    (hCall : call.run = .request commands limit budget fun outcome => .done (result outcome))
    (f : α → HostCall β) :
    (call >>= f).run =
      .request commands limit budget fun outcome => ExceptT.bindCont f (result outcome) := by
  have hRun : (call >>= f).run = call.run.bind (ExceptT.bindCont f) := rfl
  rw [hRun, hCall]
  rfl

/-- A value that is there already is handed on. -/
theorem done_bind (value : α) (f : α → HostCall β) :
    (ExceptT.mk (.done (.ok value)) >>= f : HostCall β) = f value := rfl

theorem run_bind_done_of_request
    (hCall : call.run = .request commands limit budget fun outcome => .done (result outcome))
    (f : α → Except HostError β) :
    (call >>= fun value => (.mk (.done (f value)) : HostCall β)).run =
      .request commands limit budget fun outcome => .done ((result outcome).bind f) := by
  rw [run_bind_of_request hCall]
  congr 1
  funext outcome
  cases result outcome <;> rfl

end HostCall

namespace DeviceHandle

variable {handle : DeviceHandle}

theorem run_request {instruction : Instruction} {payload : Bytes}
    (hPayload : payload.length ≤ maxPayload) :
    (handle.request instruction.code payload).run =
      .request (instruction.commands payload) handle.limit none fun outcome =>
        .done outcome.told := by
  rw [request, commands_of_le hPayload]
  dsimp only [ExceptT.run_mk]
  unfold Instruction.commands
  congr 1
  funext outcome
  cases outcome <;> rfl

theorem run_ask {α : Type} [Message α] (instruction : Instruction) :
    (handle.ask instruction : HostCall α).run =
      .request [instruction.command []] handle.limit none fun outcome =>
        .done (outcome.told.bind readMessage) := by
  have hRequest : (handle.request instruction.code []).run =
      .request [instruction.command []] handle.limit none fun outcome => .done outcome.told := by
    rw [run_request (by simp), Instruction.commands_of_le (by simp)]
  exact run_bind_done_of_request hRequest _

theorem run_send_bind {α β : Type} [Message α] {content : α} (hFits : Message.fits content = true)
    (instruction : Instruction) (f : Bytes → HostCall β) :
    (handle.send instruction content >>= f).run =
      (handle.request instruction.code (Message.toBytes content) >>= f).run := by
  unfold send
  rw [writeMessage_of_fits hFits]
  rfl

/-- The account is asked for in one request. -/
theorem run_account (path : DerivationPath) :
    (handle.account path none .standard).run =
      .request (Instruction.getAccount.commands
        (Message.toBytes (⟨path, none, .standard, false⟩ : AccountRequest))) handle.limit none
        fun outcome => .done (outcome.told.bind fun data =>
          (readMessage data : Except HostError AccountResponse).bind (accountOf path none)) := by
  let request : AccountRequest := ⟨path, none, .standard, false⟩
  have hLength : (Message.toBytes request).length ≤ maxPayload :=
    Nat.le_trans request.length_toBytes_le (by decide)
  rw [← run_bind_done_of_request (run_request hLength)]
  unfold account requestAccount
  rw [run_send_bind (α := AccountRequest) rfl]
  congr 2
  funext data
  cases (readMessage data : Except HostError AccountResponse) <;> rfl

end DeviceHandle

namespace SigningRequest

variable {signing : SigningRequest}

theorem run_complete :
    signing.complete.run =
      .request [Instruction.txComplete.command []] signing.handle.limit none fun outcome =>
        .done ((outcome.told.bind DeviceHandle.readMessage).bind fun info : TxInfo =>
          checkState info.state .complete) :=
  run_bind_done_of_request (DeviceHandle.run_ask .txComplete) _

theorem run_signature :
    signing.signature.run =
      .request [Instruction.txGetSignature.command []] signing.handle.limit none fun outcome =>
        .done ((outcome.told.bind DeviceHandle.readMessage).bind fun answer : TxSignature =>
          (checkTxId answer.txId signing.txId).map fun _ => answer.signature) := by
  rw [← run_bind_done_of_request (DeviceHandle.run_ask .txGetSignature)]
  unfold SigningRequest.signature
  congr 2
  funext answer
  cases checkTxId answer.txId signing.txId <;> rfl

/-- Whatever becomes of the release, the call goes on. -/
theorem run_completeAnyway :
    signing.completeAnyway.run =
      .request [Instruction.txComplete.command []] signing.handle.limit none fun _ =>
        .done (.ok ()) := by
  change signing.complete.run.bind _ = _
  rw [run_complete]
  change Dialogue.request _ _ _ _ = _
  congr 1
  funext outcome
  change Dialogue.bind (.done _) _ = _
  cases (outcome.told.bind DeviceHandle.readMessage).bind fun info : TxInfo =>
    checkState info.state .complete <;> rfl

end SigningRequest

section Stands

variable {id : TxId} {limit : Nat}

/-- A call that goes on where its request succeeds, and ends with its error where it does not. -/
theorem exists_leads_of_bindCont {α : Type} {f : α → HostCall SignedTx} {place after : CallPlace}
    {outcome : Outcome} (result : Except HostError α) (hPlace : place ≠ .releasing)
    (hLeads : CallPlace.Leads id place outcome after)
    (hStands : ∀ value, result = .ok value → (f value).run.Stands id limit after) :
    ∃ after, CallPlace.Leads id place outcome after ∧
      Dialogue.Stands id limit (ExceptT.bindCont f result) after := by
  cases result with
  | error error => exact ⟨_, .ends hPlace, rfl⟩
  | ok value => exact ⟨after, hLeads, hStands value rfl⟩

namespace SigningRequest

variable {signing : SigningRequest}

/-- What is left of collecting a signature once the user has approved. -/
def takeSignature (signing : SigningRequest) (account : Account) : HostCall SignedTx := do
  let signature ← signing.signature
  signing.complete
  let signed : SignedTx := ⟨signing.txId, signature, account.publicKey⟩
  if signed.verify then return signed else throw .invalidSignature

theorem stands_takeSignature (account : Account) :
    (signing.takeSignature account).run.Stands signing.txId signing.handle.limit .fetching := by
  unfold takeSignature
  rw [run_bind_of_request run_signature]
  refine ⟨rfl, ⟨rfl, rfl⟩, fun outcome _ => ?_⟩
  refine exists_leads_of_bindCont _ (by simp) .finishes fun signature _ => ?_
  rw [run_bind_of_request run_complete]
  refine ⟨rfl, ⟨rfl, rfl⟩, fun outcome _ => ?_⟩
  dsimp only
  generalize (outcome.told.bind DeviceHandle.readMessage).bind (fun info : TxInfo =>
    checkState info.state .complete) = completed
  cases completed with
  | error error => exact ⟨_, .ends (by simp), rfl⟩
  | ok _ =>
      dsimp only [ExceptT.bindCont]
      split
      · exact ⟨_, .ends (by simp), rfl⟩
      · exact ⟨_, .ends (by simp), rfl⟩

/-- What a call does once waiting for the user is over. -/
def afterWaiting (signing : SigningRequest) (account : Account) :
    Except HostError Unit → Dialogue (Except HostError SignedTx)
  | .ok _ => (signing.takeSignature account).run
  | .error .userTimeout =>
      (signing.completeAnyway >>= fun _ => (throw .userTimeout : HostCall SignedTx)).run
  | .error error => .done (.error error)

theorem run_collect (account : Account) (time : Nat) :
    (signing.collect account time).run =
      (signing.awaitApproval time).run.bind (signing.afterWaiting account) := by
  change Dialogue.bind (Dialogue.bind _ _) _ = _
  rw [Dialogue.bind_assoc]
  congr 1
  funext result
  cases result with
  | ok _ => rfl
  | error error =>
      cases error with
      | userTimeout =>
          change Dialogue.bind (ExceptT.run
            (signing.completeAnyway >>= fun _ => (throw .userTimeout : HostCall Unit))) _ = _
          unfold afterWaiting
          rw [run_bind_of_request run_completeAnyway, run_bind_of_request run_completeAnyway]
          rfl
      | _ => rfl

/-- Where waiting for the user fails, the request is released if the time has run out, and the
call ends. -/
theorem stands_afterWaiting_error (account : Account) (error : HostError) :
    (signing.afterWaiting account (.error error)).Stands signing.txId signing.handle.limit
        .releasing ∨
      ∃ result, (signing.afterWaiting account (.error error)).Stands signing.txId
        signing.handle.limit (.ended result) := by
  cases error with
  | userTimeout =>
      left
      unfold afterWaiting
      rw [run_bind_of_request run_completeAnyway]
      exact ⟨rfl, ⟨rfl, rfl⟩, fun outcome _ => ⟨_, .releases, rfl⟩⟩
  | _ => exact .inr ⟨_, rfl⟩

/-- By induction on the time that is left. -/
theorem stands_awaitApproval (account : Account) (time : Nat) :
    ((signing.awaitApproval time).run.bind (signing.afterWaiting account)).Stands signing.txId
      signing.handle.limit .waiting := by
  have hFails (outcome : Outcome) (error : HostError) :
      ∃ after, CallPlace.Leads signing.txId .waiting outcome after ∧
        (signing.afterWaiting account (.error error)).Stands signing.txId signing.handle.limit
          after := by
    rcases stands_afterWaiting_error account error with hReleasing | ⟨result, hEnded⟩
    · exact ⟨_, .givesUp, hReleasing⟩
    · exact ⟨_, .ends (by simp), hEnded⟩
  unfold awaitApproval
  induction time using Nat.strongRecOn with
  | ind time ih =>
      rw [DeviceHandle.poll]
      refine ⟨rfl, rfl, fun outcome _ => ?_⟩
      cases outcome with
      | expired => exact hFails _ _
      | ended result elapsed =>
          cases result with
          | error error => exact hFails _ _
          | ok data =>
              cases hRead : (DeviceHandle.readMessage data : Except HostError TxInfo) with
              | error error =>
                  simp only [hRead]
                  exact hFails _ _
              | ok info =>
                  simp only [hRead]
                  cases hVerdict : signing.verdict info with
                  | some result =>
                      cases result with
                      | error error => exact hFails _ _
                      | ok _ =>
                          obtain ⟨hState, hTxId⟩ := verdict_eq_ok_iff.1 hVerdict
                          exact ⟨_, .fetches hRead hState hTxId, stands_takeSignature account⟩
                  | none =>
                      dsimp only
                      split
                      · next hRound =>
                          refine ⟨_, .asks, ih _ ?_⟩
                          simp only [DeviceHandle.pollInterval] at *
                          omega
                      · exact hFails _ _

theorem stands_collect (account : Account) (time : Nat) :
    (signing.collect account time).run.Stands signing.txId signing.handle.limit .waiting := by
  rw [run_collect]
  exact stands_awaitApproval account time

end SigningRequest

namespace DeviceHandle

variable {handle : DeviceHandle}

/-- A call that opens its request waits for the user, once the device has told of that request. -/
theorem stands_openRequest {α : Type} [Message α] {instruction : Instruction} {content : α}
    (account : Account) (time : Nat) (hFits : Message.fits content = true)
    (hLength : (Message.toBytes content).length ≤ maxPayload)
    (hOpens : OpensRequest id (instruction.commands (Message.toBytes content))) :
    (handle.openRequest instruction content id >>= fun signing =>
      signing.collect account time).run.Stands id handle.limit .opening := by
  let signing : SigningRequest := ⟨id, handle⟩
  have hCollect := signing.stands_collect account time
  have hCheck : checkTxId id id = .ok () := if_pos rfl
  change Dialogue.Stands _ _ (Dialogue.bind (ExceptT.run (handle.openRequest _ _ _)) _) _
  unfold openRequest
  rw [run_send_bind hFits, run_bind_of_request (run_request hLength)]
  refine ⟨rfl, ⟨rfl, hOpens⟩, ?_⟩
  rintro outcome (⟨error, hTold⟩ | hTold)
  · dsimp only
    rw [hTold]
    exact ⟨_, .ends (by simp), rfl⟩
  · dsimp only
    rw [hTold]
    dsimp only [ExceptT.bindCont]
    rw [readMessage_state, done_bind]
    dsimp only
    rw [hCheck]
    exact ⟨_, .waits, hCollect⟩

/-- A payload that is too long is not sent, and the call ends. -/
theorem stands_openRequest_of_long {α : Type} [Message α] {instruction : Instruction}
    {content : α} (account : Account) (time : Nat) (hFits : Message.fits content = true)
    (hLength : maxPayload < (Message.toBytes content).length) :
    ∃ result, (handle.openRequest instruction content id >>= fun signing =>
      signing.collect account time).run.Stands id limit (.ended result) := by
  have hFraming : commands instruction.code (Message.toBytes content) =
      .error (.framing .payloadTooLarge) := by rw [commands, frame, if_pos hLength]
  change ∃ result, Dialogue.Stands _ _ (Dialogue.bind (ExceptT.run (handle.openRequest _ _ _)) _) _
  unfold openRequest
  rw [run_send_bind hFits, request, hFraming]
  exact ⟨_, rfl⟩

/-- A call to sign begins by asking for the account. -/
theorem Signs.stands {call : HostCall SignedTx} (hSigns : handle.Signs id call) :
    call.run.Stands id handle.limit .starting := by
  have hStarts {opening : Account → HostCall SignedTx} {path : DerivationPath}
      (hOpening : ∀ account, (opening account).run.Stands id handle.limit .opening ∨
        ∃ result, (opening account).run.Stands id handle.limit (.ended result)) :
      (handle.account path none .standard >>= opening).run.Stands id handle.limit .starting := by
    rw [run_bind_of_request (run_account path)]
    refine ⟨rfl, ⟨rfl, _, rfl, rfl⟩, fun outcome _ => ?_⟩
    dsimp only
    generalize outcome.told.bind (fun data =>
      (readMessage data : Except HostError AccountResponse).bind (accountOf path none)) = found
    cases found with
    | error error => exact ⟨_, .ends (by simp), rfl⟩
    | ok account =>
        rcases hOpening account with hOpened | ⟨result, hEnded⟩
        · exact ⟨_, .opens, hOpened⟩
        · exact ⟨_, .ends (by simp), hEnded⟩
  cases hSigns with
  | @transaction path tx unsigned time hDecode =>
      unfold signTransaction
      refine hStarts fun account => ?_
      rw [openTransaction, hDecode]
      rcases Nat.lt_or_ge maxPayload (Message.toBytes (⟨path, tx⟩ : TxSignRequest)).length with
        hLong | hLength
      · exact .inr (stands_openRequest_of_long account time rfl hLong)
      · exact .inl (stands_openRequest account time rfl hLength (.transaction hDecode hLength))
  | hash path time =>
      unfold signHash
      refine hStarts fun account => .inl ?_
      have hLength := Nat.le_trans (HashSignRequest.length_toBytes_le ⟨path, id⟩)
        (by decide : maxChunkData ≤ maxPayload)
      exact stands_openRequest account time rfl hLength (.hash path)

end DeviceHandle

end Stands

end ColdSigner
