import Go2Cloud.Lib.Calls

/-! The calls that do_migrate and its helpers make (client/main.c), for the network
part of a dry run. The control flow, the settings and the fields of migrate_ctx_t
that steer it are the source's; whatever else a branch depends on (the queue, the
tracker, the volumes, the clock, g_running) is answered by the environment, so the
model has every execution path. Log and console output, with what is only called to
fill it in, is left out. -/
namespace Go2Cloud.DryRun
open Calls

/-- Functions called, and reads of data that is not modelled. -/
inductive Ext where
  | poolAcquire | poolRelease | poolTouch | poolCount | poolReapStale | poolRecvAck
  | wireSend | wireSendControl
  | queuePush | queuePop | queueAck | queueCount | queueGetPending | queueShouldBackpressure
  | sqliteOpen | sqliteSetRemoteId | sqliteClose | sqliteBlockAcked | sqliteBlockLookup
  | sqliteBlockUpsertV | sqliteBlockMarkAcked | sqliteBlockMarkVerified | sqliteUpdateLastSent
  | sqliteGetUnacked | sqliteGetUnackedWithHash | sqliteCountUnacked | sqliteCountUnackedV
  | sqliteCountBlocks | sqliteGetNextVersion | sqliteVersionStart | sqliteVersionEnd
  | blockReaderOpen | blockReaderClose | blockReaderSize | blockReaderRead
  | blockReaderBlockCount
  | vssInit | vssCreateSnapshots | vssBackupComplete | vssCleanup
  | msgpackEncodeBlock | hashBlock | timerCheck | timerReset | timerNowMs | time | rand
  | malloc | free | sleep
  /-- g_running -/
  | running
  /-- A structured exception in the transfer loop. -/
  | exception
  /-- Fields of the connections, of a response, of a volume or of a reader entry, and
  what was read from the tracker or from a disk. -/
  | connFd | responseType | dataLen | sameHash | cooling | rateLimited | tooFast
  | volumeCount | vssVolumeCount | volumeSkipped | volumeHasVss
  | blockCount | sameDevno | insidePartition | liveReader | gptDone | entryIsVss | footerFits
  deriving DecidableEq, Repr

def Ext.isNetwork : Ext → Bool
  | .poolAcquire | .poolRelease | .poolTouch | .poolCount | .poolReapStale | .poolRecvAck
  | .wireSend | .wireSendControl => true
  | _ => false

structure Config where
  dryRun : Bool
  tailSend : Bool

structure Ctx where
  -- the fields of migrate_ctx_t that change during the migration
  allDone : Bool
  serverDoneRcvd : Bool
  ctlEndSent : Bool
  incRound : Int
  incVersion : Int
  zeroChangeRounds : Int

def Ctx.init : Ctx := ⟨false, false, false, 0, 0, 0⟩

abbrev M := Prog Ext Ctx

def socketPoolTarget : Nat := 7
def maxIncrementalRounds : Int := 60
def convergenceZeroRounds : Int := 3
def socketErr : Int := -1
def responseAck : Int := 0
def responseServerDone : Int := 2
def responseAckAlt : Int := 4

def isRunning : M Bool := do
  return decide ((← call .running) ≠ 0)

def queueHolds : M Bool := do
  return decide ((← call .queueCount) > 0)

def isAllDone : M Bool := do
  return (← readState).allDone

def flushOne (cfg : Config) : M Int := do
  if (← call .queuePop) ≠ 0 then return 0
  else if cfg.dryRun then
    perform .queueAck
    whenever (cfg.tailSend = false) (perform .sqliteBlockMarkAcked)
    return 1
  else if (← call .poolAcquire) = 0 then return -1
  else
    let rc ← call .wireSend
    perform .poolTouch
    if rc ≠ 0 then
      perform .poolRelease
      return -1
    else
      perform .poolRelease
      whenever ((← call .rateLimited) ≠ 0) do
        perform .timerNowMs
        whenever ((← call .tooFast) ≠ 0) (perform .sleep)
      return 1

def flushAll (cfg : Config) (fuel : Nat) : M Unit :=
  -- `while (flush_one(ctx) > 0) { }`
  whileDo fuel (do return decide ((← flushOne cfg) > 0)) (pure ())

def processAck (cfg : Config) (fuel : Nat) : M Unit := do
  if cfg.dryRun then
    let n ← call .queueGetPending
    repeatDo n.toNat do
      perform .queueAck
      whenever (cfg.tailSend = false) (perform .sqliteBlockMarkAcked)
  else
    repeatDo socketPoolTarget do
      whenever ((← call .connFd) ≠ socketErr)
        (whileDo fuel (do return decide ((← call .poolRecvAck) > 0)) do
          let type ← call .responseType
          if type = responseAck ∨ type = responseAckAlt then
            perform .queueAck
            whenever (cfg.tailSend = false) (perform .sqliteBlockMarkAcked)
          else
            whenever (type = responseServerDone)
              (modifyState fun ctx => { ctx with serverDoneRcvd := true }))

def drainQueue (cfg : Config) (fuel : Nat) (pause : M Unit) : M Unit :=
  -- `while (queue_count(&ctx->queue) > 0 && g_running)` with flush and ack inside
  whileDo fuel (andAlso queueHolds isRunning) do
    flushAll cfg fuel
    processAck cfg fuel
    pause

def pushBlock (cfg : Config) (fuel : Nat) : M Bool :=
  -- the push loop of send_block: true once queue_push returned 0
  loop (fun retry : Nat => do
    let rc ← call .queuePush
    if rc = 0 then return .inr true
    else if !(← isRunning) then return .inr false
    else if rc = 2 ∨ rc = -1 then
      flushAll cfg fuel
      processAck cfg fuel
      perform .sleep
      if retry + 1 > 600 then
        drainQueue cfg fuel (perform .sleep)
        return .inl 0
      else return .inl (retry + 1)
    else return .inl retry) fuel 0

def storedHash (cfg : Config) : M Int := do
  if cfg.tailSend then
    if (← call .sqliteBlockLookup) = 0 then call .sameHash else return 0
  else return 0

def sendBlock (cfg : Config) (fuel : Nat) : M Int := do
  if (← call .blockReaderRead) ≠ 0 then return -1
  else if (← call .dataLen) = 0 then return 0
  else if (← call .sqliteBlockAcked) = 1 then return 0
  else
    perform .hashBlock
    if (← storedHash cfg) ≠ 0 then return 0
    else if (← call .msgpackEncodeBlock) ≠ 0 then return -1
    else if !(← pushBlock cfg fuel) then return -1
    else
      perform .sqliteBlockUpsertV
      return 0

def upTo (count : Int) (body : M Bool) : M Unit :=
  times (fun _ => do return (← body, ())) count.toNat ()

def findEntry (readerCount : Nat) : M Bool :=
  times (fun _ => do
    if (← call .sameDevno) = 0 then return (true, false)
    else
      perform .blockReaderSize
      let found ← call .insidePartition
      return (decide (found = 0), decide (found ≠ 0))) readerCount false

def doRetransmit (cfg : Config) (fuel readerCount : Nat) : M Unit := do
  let count ← call .sqliteGetUnacked
  upTo count do
    if !(← isRunning) then return false
    else
      let found ← findEntry readerCount
      whenever (found = true) do
        let _ ← sendBlock cfg fuel
        return ()
      return true

def doReconnect (fuel : Nat) : M Unit := do
  perform .poolReapStale
  loop (fun _ : Unit => do
    if (← call .poolCount) < socketPoolTarget then
      if (← call .poolAcquire) ≠ 0 then
        perform .poolRelease
        return .inl ()
      else return .inr ()
    else return .inr ()) fuel ()

def pushChanged (cfg : Config) (fuel : Nat) : M (Option Int) :=
  -- the push loop of do_incremental_round: the last value of queue_push
  loop (fun retryCount : Nat => do
    let rc ← call .queuePush
    if rc = 0 then return .inr (some 0)
    else if !(← isRunning) then return .inr none
    else
      flushAll cfg fuel
      processAck cfg fuel
      perform .sleep
      if retryCount + 1 > 300 then return .inr (some rc) else return .inl (retryCount + 1)) fuel 0

def roundRow (cfg : Config) (fuel readerCount : Nat) (currentVersion requeued : Int) :
    M (Bool × Int) := do
  if !(← isRunning) then return (false, requeued)
  else if (← call .cooling) ≠ 0 then return (true, requeued)
  else if (← call .queueCount) > 9 then return (false, requeued)
  else
    let found ← findEntry readerCount
    if found = false then return (true, requeued)
    else if (← call .liveReader) = 0 then return (true, requeued)
    else if (← call .blockReaderRead) ≠ 0 then return (true, requeued)
    else if (← call .dataLen) = 0 then return (true, requeued)
    else
      perform .hashBlock
      if (← call .sameHash) ≠ 0 then
        perform (if currentVersion > 0 then .sqliteBlockMarkVerified else .sqliteBlockMarkAcked)
        perform .sqliteUpdateLastSent
        return (true, requeued)
      else
        perform .sqliteUpdateLastSent
        if (← call .msgpackEncodeBlock) ≠ 0 then return (true, requeued)
        else
          match ← pushChanged cfg fuel with
          | none => return (false, requeued)
          | some rc =>
            if rc = 0 then
              perform .sqliteBlockUpsertV
              perform .timerNowMs
              perform .sqliteUpdateLastSent
              return (true, requeued + 1)
            else return (true, requeued)

def doIncrementalRound (cfg : Config) (fuel readerCount : Nat) (currentVersion : Int) :
    M Int := do
  let count ← call .sqliteGetUnackedWithHash
  if count ≤ 0 then return 0
  else
    repeatDo (count.toNat - 1) (perform .rand)
    perform .timerNowMs
    times (roundRow cfg fuel readerCount currentVersion) count.toNat 0

def sendCtlEnd : M Bool := do
  if (← readState).ctlEndSent then return true
  else if (← call .poolAcquire) ≠ 0 then
    perform .wireSendControl
    perform .poolTouch
    perform .poolRelease
    modifyState fun ctx => { ctx with ctlEndSent := true }
    return true
  else return false

def timerCbReal (cfg : Config) (fuel : Nat) : M Bool := do
  if cfg.dryRun then
    drainQueue cfg fuel (pure ())
    modifyState fun ctx => { ctx with allDone := true }
    return true
  else
    drainQueue cfg fuel (perform .sleep)
    if !(← sendCtlEnd) then return false
    else
      modifyState fun ctx => { ctx with serverDoneRcvd := false }
      upTo 3000 do
        if ← andAlso isRunning (do return !(← readState).serverDoneRcvd) then
          processAck cfg fuel
          flushAll cfg fuel
          perform .sleep
          return true
        else return false
      modifyState fun ctx => { ctx with allDone := true }
      return true

def shouldFinish (requeued currentVersion : Int) : M Bool := do
  let unacked ← call (if currentVersion > 0 then .sqliteCountUnackedV else .sqliteCountUnacked)
  let total ← call .sqliteCountBlocks
  if unacked = 0 then return true
  else
    modifyState fun ctx =>
      { ctx with zeroChangeRounds := if requeued = 0 then ctx.zeroChangeRounds + 1 else 0 }
    let ctx ← readState
    -- C division truncates
    if requeued = 0 ∧ ctx.zeroChangeRounds ≥ convergenceZeroRounds ∧
        unacked ≤ max (total.tdiv 20) 512 then return true
    else return decide (ctx.incRound ≥ maxIncrementalRounds)

def printFullProgress (readerCount : Nat) : M Unit :=
  repeatDo readerCount (perform .sqliteCountBlocks)

def timerRetransmit : Int := 1
def timerReconnect : Int := 2
def timerAction : Int := 3
def timerIncremental : Int := 4

/-- The cases that both timer loops share. -/
def timerCase (cfg : Config) (fuel readerCount : Nat) (incremental : M Unit) (ev : Int) :
    M Unit := do
  if ev = timerIncremental then incremental
  else if ev = timerRetransmit then doRetransmit cfg fuel readerCount
  else if ev = timerReconnect then whenever (cfg.dryRun = false) (doReconnect fuel)
  else whenever (ev = timerAction) (printFullProgress readerCount)

/-- A timer loop; the one in the incremental loop can `leave` after a reset. -/
def timerLoop (cfg : Config) (fuel readerCount : Nat) (incremental : M Unit) (leave : M Bool) :
    M Unit := do
  perform .timerNowMs
  loop (fun _ : Unit => do
    let ev ← call .timerCheck
    if ev = 0 then return .inr ()
    else
      timerCase cfg fuel readerCount incremental ev
      perform .timerReset
      if ← leave then return .inr ()
      else
        perform .timerNowMs
        return .inl ()) fuel ()

def incrementalInTransfer (cfg : Config) (fuel readerCount : Nat) : M Unit :=
  whenever (cfg.tailSend = true) do
    modifyState fun ctx => { ctx with incRound := ctx.incRound + 1 }
    let _ ← doIncrementalRound cfg fuel readerCount 0
    return ()

def incrementalInLoop (cfg : Config) (fuel readerCount : Nat) : M Unit := do
  modifyState fun ctx => { ctx with incRound := ctx.incRound + 1 }
  let version := (← readState).incVersion
  let requeued ← doIncrementalRound cfg fuel readerCount version
  perform .time
  perform .sqliteVersionEnd
  if ← shouldFinish requeued version then
    let _ ← timerCbReal cfg fuel
    return ()
  else
    modifyState fun ctx => { ctx with incVersion := ctx.incVersion + 1 }
    perform .time
    perform .sqliteVersionStart

def transferBlock (cfg : Config) (fuel readerCount : Nat) : M Unit := do
  whileDo fuel (andAlso (do return decide ((← call .queueShouldBackpressure) ≠ 0)) isRunning) do
    processAck cfg fuel
    flushAll cfg fuel
    whenever ((← call .queueShouldBackpressure) ≠ 0) (perform .sleep)
  let _ ← sendBlock cfg fuel
  flushAll cfg fuel
  processAck cfg fuel
  timerLoop cfg fuel readerCount (incrementalInTransfer cfg fuel readerCount) (pure false)

def transfer (cfg : Config) (fuel readerCount : Nat) : M Bool :=
  times (fun _ => do
    if !(← isRunning) then return (false, false)
    else
      perform .blockReaderSize
      let blocks ← call .blockCount
      let failed ← times (fun _ => do
        if !(← isRunning) then return (false, false)
        else if (← call .exception) ≠ 0 then return (false, true)
        else
          transferBlock cfg fuel readerCount
          return (true, false)) blocks.toNat false
      return (!failed, failed)) readerCount false

def sendMetadata (cfg : Config) (fuel : Nat) : M Unit := do
  let _ ← sendBlock cfg fuel
  flushAll cfg fuel
  processAck cfg fuel

def openDisk (isVss : Int) : M Int :=
  -- a reader of the whole disk; the entry's own one unless it reads a snapshot
  if isVss ≠ 0 then call .blockReaderOpen else pure 1

def backupGpt (cfg : Config) (fuel readerCount : Nat) : M Unit :=
  upTo readerCount do
    if !(← isRunning) then return false
    else if (← call .gptDone) ≠ 0 then return true
    else
      let isVss ← call .entryIsVss
      if (← openDisk isVss) = 0 then return true
      else
        perform .blockReaderSize
        sendMetadata cfg fuel
        whenever ((← call .footerFits) ≠ 0)
          (upTo 2 do
            if !(← isRunning) then return false
            else
              sendMetadata cfg fuel
              return true)
        whenever (isVss ≠ 0) (perform .blockReaderClose)
        return true

def incrementalIteration (cfg : Config) (fuel readerCount : Nat) : M Bool := do
  flushAll cfg fuel
  processAck cfg fuel
  doReconnect fuel
  timerLoop cfg fuel readerCount (incrementalInLoop cfg fuel readerCount) isAllDone
  if ← isAllDone then return false
  else
    perform .sleep
    return true

def incrementalLoop (cfg : Config) (fuel readerCount : Nat) : M Unit := do
  modifyState fun ctx => { ctx with zeroChangeRounds := 0 }
  let version ← call .sqliteGetNextVersion
  modifyState fun ctx => { ctx with incVersion := if version < 1 then 1 else version }
  perform .time
  perform .sqliteVersionStart
  loop (fun _ : Unit => do
    if ← andAlso isRunning (do return !(← isAllDone)) then
      if ← incrementalIteration cfg fuel readerCount then return .inl () else return .inr ()
    else return .inr ()) fuel ()

def endIncremental (cfg : Config) (fuel : Nat) : M Unit :=
  whenever (cfg.dryRun = false) do
    whenever ((← call .poolAcquire) ≠ 0) do
      perform .wireSendControl
      perform .poolTouch
      perform .poolRelease
      repeatDo 300 do
        processAck cfg fuel
        perform .sleep

def openVolume : M Int := do
  let hasVss ← call .volumeHasVss
  let reader ← call .blockReaderOpen
  if reader = 0 ∧ hasVss ≠ 0 then call .blockReaderOpen else return reader

def openReaders (cfg : Config) (volumeCount : Nat) : M Nat :=
  -- the readers of the volumes that are not skipped: how many could be opened
  times (fun readerCount => do
    if (← call .volumeSkipped) ≠ 0 then return (true, readerCount)
    else if (← openVolume) = 0 then return (true, readerCount)
    else
      whenever (cfg.tailSend = true) (perform .blockReaderOpen)
      perform .blockReaderBlockCount
      return (true, readerCount + 1)) volumeCount 0

def takeSnapshots (vssCtx : Int) : M Bool := do
  if vssCtx ≠ 0 ∧ (← call .vssVolumeCount) > 0 then
    return decide ((← call .vssCreateSnapshots) > 0)
  else return false

-- an early return: the snapshots, the buffer and the tracker are given back
def abort (vssCtx : Int) : M Int := do
  whenever (vssCtx ≠ 0) (perform .vssCleanup)
  perform .free
  perform .sqliteClose
  return -1

def finishTransfer (cfg : Config) (fuel readerCount : Nat) : M Unit :=
  if cfg.tailSend then incrementalLoop cfg fuel readerCount else endIncremental cfg fuel

def cleanUp (readerCount : Nat) (vssCtx : Int) : M Unit := do
  whenever (vssCtx ≠ 0) do
    perform .vssBackupComplete
    perform .vssCleanup
  repeatDo readerCount do
    perform .blockReaderClose
    whenever ((← call .liveReader) ≠ 0) (perform .blockReaderClose)
  perform .free
  perform .sqliteClose

def migrateReaders (cfg : Config) (fuel readerCount : Nat) (vssCtx : Int) : M Int := do
  whenever (cfg.tailSend = true ∧ cfg.dryRun = false) do
    whenever ((← call .poolAcquire) ≠ 0) do
      perform .wireSendControl
      perform .poolRelease
  printFullProgress readerCount
  if ← transfer cfg fuel readerCount then return -1
  else
    backupGpt cfg fuel readerCount
    upTo 300 do
      if (← call .queueCount) > 0 then
        flushAll cfg fuel
        processAck cfg fuel
        perform .sleep
        return true
      else return false
    finishTransfer cfg fuel readerCount
    cleanUp readerCount vssCtx
    return 0

def doMigrate (cfg : Config) (fuel : Nat) : M Int := do
  if (← call .sqliteOpen) = 0 then return -1
  else
    perform .sqliteSetRemoteId
    if (← call .malloc) = 0 then
      perform .sqliteClose
      return -1
    else
      let vssCtx ← call .vssInit
      if !(← takeSnapshots vssCtx) then abort vssCtx
      else
        let volumeCount ← call .volumeCount
        let readerCount ← openReaders cfg volumeCount.toNat
        if readerCount = 0 then abort vssCtx
        else migrateReaders cfg fuel readerCount vssCtx

def Local (e : Ext) : Prop := e.isNetwork = false

theorem isRunning_local : Only Local isRunning := only_bind (only_call rfl) fun _ => only_pure _

theorem isAllDone_local : Only Local isAllDone := only_bind only_readState fun _ => only_pure _

theorem queueHolds_local : Only Local queueHolds := only_bind (only_call rfl) fun _ => only_pure _

theorem upTo_local {count : Int} {body : M Bool} (h : Only Local body) :
    Only Local (upTo count body) :=
  only_times (fun _ => only_bind h fun _ => only_pure _) _ _

theorem findEntry_local (readerCount : Nat) : Only Local (findEntry readerCount) := by
  refine only_times (fun _ => ?_) _ _
  refine only_guard (only_call rfl) fun _ => ?_
  exact only_bind (only_perform rfl) fun _ => only_bind (only_call rfl) fun _ => only_pure _

theorem storedHash_local (cfg : Config) : Only Local (storedHash cfg) := by
  refine only_ite (only_bind (only_call rfl) fun _ => ?_) (only_pure _)
  exact only_ite (only_call rfl) (only_pure _)

theorem openDisk_local (isVss : Int) : Only Local (openDisk isVss) :=
  only_ite (only_call rfl) (only_pure _)

theorem printFullProgress_local (readerCount : Nat) : Only Local (printFullProgress readerCount) :=
  only_repeatDo _ (only_perform rfl)

theorem shouldFinish_local (requeued currentVersion : Int) :
    Only Local (shouldFinish requeued currentVersion) := by
  have count : Local (if currentVersion > 0 then .sqliteCountUnackedV
      else .sqliteCountUnacked) := by
    split <;> rfl
  refine only_bind (only_call count) fun _ => only_bind (only_call rfl) fun _ => ?_
  refine only_ite (only_pure _) (only_bind (only_modifyState _) fun _ => ?_)
  exact only_bind only_readState fun _ => only_ite (only_pure _) (only_pure _)

theorem abort_local (vssCtx : Int) : Only Local (abort vssCtx) := by
  refine only_bind (only_whenever (only_perform rfl)) fun _ => ?_
  exact only_bind (only_perform rfl) fun _ => only_bind (only_perform rfl) fun _ => only_pure _

theorem takeSnapshots_local (vssCtx : Int) : Only Local (takeSnapshots vssCtx) := by
  refine only_bind (only_call rfl) fun _ => only_ite ?_ (only_pure _)
  exact only_bind (only_call rfl) fun _ => only_pure _

theorem cleanUp_local (readerCount : Nat) (vssCtx : Int) :
    Only Local (cleanUp readerCount vssCtx) := by
  refine only_bind (only_whenever ?_) fun _ => only_bind (only_repeatDo _ ?_) fun _ => ?_
  · exact only_bind (only_perform rfl) fun _ => only_perform rfl
  · refine only_bind (only_perform rfl) fun _ => ?_
    exact only_bind (only_call rfl) fun _ => only_whenever (only_perform rfl)
  · exact only_bind (only_perform rfl) fun _ => only_perform rfl

theorem openVolume_local : Only Local openVolume := by
  refine only_bind (only_call rfl) fun _ => only_bind (only_call rfl) fun _ => ?_
  exact only_ite (only_call rfl) (only_pure _)

theorem openReaders_local (cfg : Config) (volumeCount : Nat) :
    Only Local (openReaders cfg volumeCount) := by
  refine only_times (fun _ => ?_) _ _
  refine only_guard (only_call rfl) fun _ => ?_
  refine only_guard openVolume_local fun _ => ?_
  refine only_bind (only_whenever (only_perform rfl)) fun _ => ?_
  exact only_bind (only_perform rfl) fun _ => only_pure _

section
variable {cfg : Config} (dry : cfg.dryRun = true)
include dry

theorem flushOne_local : Only Local (flushOne cfg) := by
  simp only [flushOne, dry, if_true]
  refine only_guard (only_call rfl) fun _ => ?_
  refine only_bind (only_perform rfl) fun _ => only_bind (only_whenever (only_perform rfl)) ?_
  exact fun _ => only_pure _

theorem flushAll_local (fuel : Nat) : Only Local (flushAll cfg fuel) :=
  only_whileDo fuel (only_bind (flushOne_local dry) fun _ => only_pure _) (only_pure ())

theorem processAck_local (fuel : Nat) : Only Local (processAck cfg fuel) := by
  simp only [processAck, dry, if_true]
  refine only_bind (only_call rfl) fun _ => only_repeatDo _ ?_
  exact only_bind (only_perform rfl) fun _ => only_whenever (only_perform rfl)

theorem flushAck_local (fuel : Nat) {α : Type} {rest : M α} (h : Only Local rest) :
    Only Local (do flushAll cfg fuel; processAck cfg fuel; rest) :=
  only_bind (flushAll_local dry fuel) fun _ => only_bind (processAck_local dry fuel) fun _ => h

theorem drainQueue_local (fuel : Nat) {pause : M Unit} (h : Only Local pause) :
    Only Local (drainQueue cfg fuel pause) :=
  only_whileDo fuel (only_andAlso queueHolds_local isRunning_local) (flushAck_local dry fuel h)

theorem pushBlock_local (fuel : Nat) : Only Local (pushBlock cfg fuel) := by
  refine only_loop (fun _ => ?_) _ _
  refine only_guard (only_call rfl) fun _ => ?_
  refine only_bind isRunning_local fun _ => only_ite (only_pure _) (only_ite ?_ (only_pure _))
  refine flushAck_local dry fuel (only_bind (only_perform rfl) fun _ => only_ite ?_ (only_pure _))
  exact only_bind (drainQueue_local dry fuel (only_perform rfl)) fun _ => only_pure _

theorem sendBlock_local (fuel : Nat) : Only Local (sendBlock cfg fuel) := by
  refine only_guard (only_call rfl) fun _ => ?_
  refine only_guard (only_call rfl) fun _ => ?_
  refine only_guard (only_call rfl) fun _ => ?_
  refine only_bind (only_perform rfl) fun _ => ?_
  refine only_guard (storedHash_local cfg) fun _ => ?_
  refine only_guard (only_call rfl) fun _ => ?_
  refine only_guard (pushBlock_local dry fuel) fun _ => ?_
  exact only_bind (only_perform rfl) fun _ => only_pure _

theorem doRetransmit_local (fuel readerCount : Nat) :
    Only Local (doRetransmit cfg fuel readerCount) := by
  refine only_bind (only_call rfl) fun _ => upTo_local ?_
  refine only_guard isRunning_local fun _ => ?_
  refine only_bind (findEntry_local readerCount) fun _ => only_bind (only_whenever ?_) fun _ => ?_
  · exact only_bind (sendBlock_local dry fuel) fun _ => only_pure _
  · exact only_pure _

theorem pushChanged_local (fuel : Nat) : Only Local (pushChanged cfg fuel) := by
  refine only_loop (fun _ => ?_) _ _
  refine only_guard (only_call rfl) fun _ => ?_
  refine only_bind isRunning_local fun _ => only_ite (only_pure _) (flushAck_local dry fuel ?_)
  exact only_bind (only_perform rfl) fun _ => only_ite (only_pure _) (only_pure _)

theorem roundRow_local (fuel readerCount : Nat) (currentVersion requeued : Int) :
    Only Local (roundRow cfg fuel readerCount currentVersion requeued) := by
  have mark : Local (if currentVersion > 0 then .sqliteBlockMarkVerified
      else .sqliteBlockMarkAcked) := by
    split <;> rfl
  refine only_guard isRunning_local fun _ => ?_
  refine only_guard (only_call rfl) fun _ => ?_
  refine only_guard (only_call rfl) fun _ => ?_
  refine only_guard (findEntry_local readerCount) fun _ => ?_
  refine only_guard (only_call rfl) fun _ => ?_
  refine only_guard (only_call rfl) fun _ => ?_
  refine only_guard (only_call rfl) fun _ => ?_
  refine only_bind (only_perform rfl) fun _ => only_bind (only_call rfl) fun _ => only_ite ?_ ?_
  · refine only_bind (only_perform mark) fun _ => ?_
    exact only_bind (only_perform rfl) fun _ => only_pure _
  · refine only_bind (only_perform rfl) fun _ => only_bind (only_call rfl) fun _ => ?_
    refine only_ite (only_pure _) (only_bind (pushChanged_local dry fuel) fun rc => ?_)
    cases rc with
    | none => exact only_pure _
    | some rc =>
      refine only_ite ?_ (only_pure _)
      refine only_bind (only_perform rfl) fun _ => only_bind (only_perform rfl) fun _ => ?_
      exact only_bind (only_perform rfl) fun _ => only_pure _

theorem doIncrementalRound_local (fuel readerCount : Nat) (currentVersion : Int) :
    Only Local (doIncrementalRound cfg fuel readerCount currentVersion) := by
  refine only_guard (only_call rfl) fun _ => ?_
  refine only_bind (only_repeatDo _ (only_perform rfl)) fun _ => ?_
  exact only_bind (only_perform rfl) fun _ =>
    only_times (roundRow_local dry fuel readerCount currentVersion) _ _

theorem timerCbReal_local (fuel : Nat) : Only Local (timerCbReal cfg fuel) := by
  simp only [timerCbReal, dry, if_true]
  refine only_bind (drainQueue_local dry fuel (only_pure ())) fun _ => ?_
  exact only_bind (only_modifyState _) fun _ => only_pure _

theorem timerLoop_local (fuel readerCount : Nat) {incremental : M Unit} {leave : M Bool}
    (h : Only Local incremental) (h' : Only Local leave) :
    Only Local (timerLoop cfg fuel readerCount incremental leave) := by
  refine only_bind (only_perform rfl) fun _ => only_loop (fun _ => ?_) _ _
  refine only_bind (only_call rfl) fun ev => only_ite (only_pure _) (only_bind ?_ fun _ => ?_)
  · simp only [timerCase, dry, whenever, Bool.true_eq_false, if_false]
    refine only_ite h (only_ite (doRetransmit_local dry fuel readerCount) ?_)
    exact only_ite (only_pure _) (only_ite (printFullProgress_local readerCount) (only_pure _))
  · refine only_bind (only_perform rfl) fun _ => only_guard h' fun _ => ?_
    exact only_bind (only_perform rfl) fun _ => only_pure _

theorem incrementalInTransfer_local (fuel readerCount : Nat) :
    Only Local (incrementalInTransfer cfg fuel readerCount) := by
  refine only_whenever (only_bind (only_modifyState _) fun _ => ?_)
  exact only_bind (doIncrementalRound_local dry fuel readerCount 0) fun _ => only_pure _

theorem incrementalInLoop_local (fuel readerCount : Nat) :
    Only Local (incrementalInLoop cfg fuel readerCount) := by
  refine only_bind (only_modifyState _) fun _ => only_bind only_readState fun _ => ?_
  refine only_bind (doIncrementalRound_local dry fuel readerCount _) fun _ => ?_
  refine only_bind (only_perform rfl) fun _ => only_bind (only_perform rfl) fun _ => ?_
  refine only_bind (shouldFinish_local _ _) fun _ => only_ite ?_ ?_
  · exact only_bind (timerCbReal_local dry fuel) fun _ => only_pure _
  · refine only_bind (only_modifyState _) fun _ => ?_
    exact only_bind (only_perform rfl) fun _ => only_perform rfl

theorem transferBlock_local (fuel readerCount : Nat) :
    Only Local (transferBlock cfg fuel readerCount) := by
  refine only_bind (only_whileDo fuel (only_andAlso ?_ isRunning_local) ?_) fun _ => ?_
  · exact only_bind (only_call rfl) fun _ => only_pure _
  · refine only_bind (processAck_local dry fuel) fun _ => ?_
    refine only_bind (flushAll_local dry fuel) fun _ => ?_
    exact only_bind (only_call rfl) fun _ => only_whenever (only_perform rfl)
  · refine only_bind (sendBlock_local dry fuel) fun _ => flushAck_local dry fuel ?_
    exact timerLoop_local dry fuel readerCount (incrementalInTransfer_local dry fuel readerCount)
      (only_pure _)

theorem transfer_local (fuel readerCount : Nat) : Only Local (transfer cfg fuel readerCount) := by
  refine only_times (fun _ => ?_) _ _
  refine only_guard isRunning_local fun _ => ?_
  refine only_bind (only_perform rfl) fun _ => only_bind (only_call rfl) fun _ => ?_
  refine only_bind (only_times (fun _ => ?_) _ _) fun _ => only_pure _
  refine only_guard isRunning_local fun _ => ?_
  refine only_guard (only_call rfl) fun _ => ?_
  exact only_bind (transferBlock_local dry fuel readerCount) fun _ => only_pure _

theorem sendMetadata_local (fuel : Nat) : Only Local (sendMetadata cfg fuel) := by
  refine only_bind (sendBlock_local dry fuel) fun _ => ?_
  exact only_bind (flushAll_local dry fuel) fun _ => processAck_local dry fuel

theorem backupGpt_local (fuel readerCount : Nat) : Only Local (backupGpt cfg fuel readerCount) := by
  refine upTo_local ?_
  refine only_guard isRunning_local fun _ => ?_
  refine only_guard (only_call rfl) fun _ => ?_
  refine only_bind (only_call rfl) fun _ => ?_
  refine only_guard (openDisk_local _) fun _ => ?_
  refine only_bind (only_perform rfl) fun _ => only_bind (sendMetadata_local dry fuel) fun _ => ?_
  refine only_bind (only_call rfl) fun _ => only_bind (only_whenever (upTo_local ?_)) fun _ => ?_
  · refine only_guard isRunning_local fun _ => ?_
    exact only_bind (sendMetadata_local dry fuel) fun _ => only_pure _
  · exact only_bind (only_whenever (only_perform rfl)) fun _ => only_pure _

theorem endIncremental_local (fuel : Nat) : Only Local (endIncremental cfg fuel) := by
  simp only [endIncremental, whenever, dry, Bool.true_eq_false, if_false]
  exact only_pure _

theorem incrementalIteration_only {P : Ext → Prop} (keeps : ∀ e, Local e → P e)
    (reconnect : ∀ fuel, Only P (doReconnect fuel)) (fuel readerCount : Nat) :
    Only P (incrementalIteration cfg fuel readerCount) := by
  refine only_bind ((flushAll_local dry fuel).mono keeps) fun _ => ?_
  refine only_bind ((processAck_local dry fuel).mono keeps) fun _ => ?_
  refine only_bind (reconnect fuel) fun _ => Only.mono ?_ keeps
  refine only_bind (timerLoop_local dry fuel readerCount
    (incrementalInLoop_local dry fuel readerCount) isAllDone_local) fun _ => ?_
  refine only_guard isAllDone_local fun _ => ?_
  exact only_bind (only_perform rfl) fun _ => only_pure _

theorem incrementalLoop_only {P : Ext → Prop} (keeps : ∀ e, Local e → P e)
    (reconnect : ∀ fuel, Only P (doReconnect fuel)) (fuel readerCount : Nat) :
    Only P (incrementalLoop cfg fuel readerCount) := by
  refine only_bind (only_modifyState _) fun _ => only_bind (only_call (keeps _ rfl)) fun _ => ?_
  refine only_bind (only_modifyState _) fun _ => only_bind (only_perform (keeps _ rfl)) fun _ => ?_
  refine only_bind (only_perform (keeps _ rfl)) fun _ => only_loop (fun _ => ?_) _ _
  refine only_bind (only_andAlso (isRunning_local.mono keeps) ?_) fun _ => only_ite ?_ (only_pure _)
  · exact only_bind (isAllDone_local.mono keeps) fun _ => only_pure _
  · refine only_bind (incrementalIteration_only dry keeps reconnect fuel readerCount) fun _ => ?_
    exact only_ite (only_pure _) (only_pure _)

theorem migrateReaders_only {P : Ext → Prop} (keeps : ∀ e, Local e → P e)
    (reconnect : cfg.tailSend = true → ∀ fuel, Only P (doReconnect fuel))
    (fuel readerCount : Nat) (vssCtx : Int) :
    Only P (migrateReaders cfg fuel readerCount vssCtx) := by
  have guarded : ¬ (cfg.tailSend = true ∧ cfg.dryRun = false) := by simp [dry]
  simp only [migrateReaders, whenever, if_neg guarded]
  refine only_bind (only_pure _) fun _ => ?_
  refine only_bind ((printFullProgress_local readerCount).mono keeps) fun _ => ?_
  refine only_bind ((transfer_local dry fuel readerCount).mono keeps) fun _ => ?_
  refine only_ite (only_pure _) ?_
  refine only_bind ((backupGpt_local dry fuel readerCount).mono keeps) fun _ => ?_
  refine only_bind (Only.mono (upTo_local ?_) keeps) fun _ => ?_
  · refine only_bind (only_call rfl) fun _ => only_ite ?_ (only_pure _)
    exact flushAck_local dry fuel (only_bind (only_perform rfl) fun _ => only_pure _)
  · refine only_bind ?_ fun _ => ?_
    · unfold finishTransfer
      split
      next tail => exact incrementalLoop_only dry keeps (reconnect tail) fuel readerCount
      next => exact (endIncremental_local dry fuel).mono keeps
    · exact only_bind ((cleanUp_local readerCount vssCtx).mono keeps) fun _ => only_pure _

/-- In a dry run every call of pool_* or wire_* is one of do_reconnect, and without
TailSend there is none. -/
theorem doMigrate_only {P : Ext → Prop} (keeps : ∀ e, Local e → P e)
    (reconnect : cfg.tailSend = true → ∀ fuel, Only P (doReconnect fuel)) (fuel : Nat) :
    Only P (doMigrate cfg fuel) := by
  refine only_guard (only_call (keeps _ rfl)) fun _ => ?_
  refine only_bind (only_perform (keeps _ rfl)) fun _ => ?_
  refine only_bind (only_call (keeps _ rfl)) fun _ => only_ite ?_ ?_
  · exact only_bind (only_perform (keeps _ rfl)) fun _ => only_pure _
  refine only_bind (only_call (keeps _ rfl)) fun vssCtx => ?_
  refine only_bind ((takeSnapshots_local vssCtx).mono keeps) fun _ => ?_
  refine only_ite ((abort_local vssCtx).mono keeps) ?_
  refine only_bind (only_call (keeps _ rfl)) fun volumeCount => ?_
  refine only_bind ((openReaders_local cfg volumeCount.toNat).mono keeps) fun readerCount => ?_
  refine only_ite ((abort_local vssCtx).mono keeps) ?_
  exact migrateReaders_only dry keeps reconnect fuel readerCount vssCtx

end

-- one volume, nothing to read from it and an empty queue; g_running stays set
def quietHost : Env Ext := fun _ e =>
  match e with
  | .sqliteOpen | .malloc | .vssInit | .vssVolumeCount | .vssCreateSnapshots | .volumeCount
  | .blockReaderOpen | .running => 1
  | .queuePop => -1
  | _ => 0

theorem quietHost_reconnects :
    .poolReapStale ∈ callsOf (doMigrate ⟨true, true⟩ 1) quietHost .init := by
  decide +kernel

/-- A dry run keeps off the network on every path exactly when TailSend is off. -/
theorem dryRun_local_iff (cfg : Config) (dry : cfg.dryRun = true) :
    (∀ env fuel, ∀ e ∈ callsOf (doMigrate cfg fuel) env .init, e.isNetwork = false) ↔
      cfg.tailSend = false := by
  constructor
  · intro quiet
    obtain ⟨dryRun, tailSend⟩ := cfg
    obtain rfl : dryRun = true := dry
    cases tailSend with
    | false => rfl
    | true =>
      have reaped := quiet quietHost 1 _ quietHost_reconnects
      cases reaped
  · intro full env fuel
    have unreached : cfg.tailSend = true → ∀ fuel, Only Local (doReconnect fuel) := by simp [full]
    exact (doMigrate_only dry (fun _ h => h) unreached fuel).callsOf env .init

theorem dryRun_local_iff_full :
    ¬ ∃ e ∈ callsOf (doMigrate ⟨true, false⟩ 1) quietHost .init, e.isNetwork = true := by
  rintro ⟨e, member, network⟩
  have quiet := (dryRun_local_iff ⟨true, false⟩ rfl).mpr rfl quietHost 1 e member
  exact Bool.false_ne_true (quiet.symm.trans network)

/-- The first iteration of the incremental loop locks the pool that dry runs never
initialise. -/
theorem dryRun_tailSend_reconnects :
    ∃ env fuel, .poolReapStale ∈ callsOf (doMigrate ⟨true, true⟩ fuel) env .init :=
  ⟨quietHost, 1, quietHost_reconnects⟩

end Go2Cloud.DryRun
