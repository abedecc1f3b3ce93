import Xv6.Lib.Ring
import Xv6.Lib.Transition
import Xv6.Param

/-! The driver of `virtio_disk.c` with the device it talks to. The critical sections of
`vdisk_lock` are cut at every access to memory that the device reads or writes, and the device
moves at any time: it takes the heads that `avail->idx` makes visible, carries out the requests
it has taken and reports them in the used ring, in any order. -/
namespace Xv6.Virtio
open Function (update)

def NUM : ℕ := 8

def VRING_DESC_F_NEXT : UInt16 := 1
def VRING_DESC_F_WRITE : UInt16 := 2

/-- What a descriptor points to: `disk.ops[i]`, the data of a buffer, or `disk.info[i].status`. -/
inductive Addr
  | null
  | op (i : ℕ)
  | data (b : ℕ)
  | status (i : ℕ)
  deriving DecidableEq

/-- `struct virtq_desc`. -/
structure Desc where
  addr : Addr
  len : ℕ
  flags : UInt16
  next : ℕ
  deriving DecidableEq

/-- A cleared descriptor. -/
def Desc.zero : Desc := { addr := .null, len := 0, flags := 0, next := 0 }

/-- `struct virtio_blk_req`; `type` is VIRTIO_BLK_T_OUT if `out` is set. -/
structure Op where
  out : Bool
  sector : ℕ
  deriving DecidableEq

/-- `disk.info[i]`; a buffer is known by a number. -/
structure Info where
  b : Option ℕ
  status : UInt8
  deriving DecidableEq

/-- A ring with its index, `struct virtq_avail` or `struct virtq_used`. -/
structure Ring where
  idx : UInt16
  ring : ℕ → ℕ

/-- `struct disk` with the memory it shares with the device. -/
structure Disk where
  desc : ℕ → Desc
  avail : Ring
  used : Ring
  free : ℕ → Bool
  usedIdx : UInt16
  info : ℕ → Info
  ops : ℕ → Op

/-- The arguments of `virtio_disk_rw`, with the sector computed from `b->blockno`. -/
structure Call where
  b : ℕ
  write : Bool
  sector : ℕ
  deriving DecidableEq

/-- `int idx[3]`. -/
structure Idx where
  i0 : ℕ
  i1 : ℕ
  i2 : ℕ
  deriving DecidableEq

/-- Where a thread is in `virtio_disk_rw` or `virtio_disk_intr`. A `want` position waits for
`vdisk_lock`, a `sleep` position is in `sleep`, and the others hold the lock. The number `k` is a
ghost, the position of the request among all that were made visible. -/
inductive Pc
  | out
  | want (c : Call)
  | alloc (c : Call)
  | sleepFree (c : Call)
  | format (c : Call) (x : Idx)
  | ring (c : Call) (x : Idx)
  | publish (c : Call) (x : Idx)
  | test (c : Call) (x : Idx) (k : ℕ)
  | sleepDisk (c : Call) (x : Idx) (k : ℕ)
  | wantTest (c : Call) (x : Idx) (k : ℕ)
  | intrWant
  | intrTest
  | intrBody
  deriving DecidableEq

namespace Pc

def holds : Pc → Bool
  | alloc _ | format _ _ | ring _ _ | publish _ _ | test _ _ _ | intrTest | intrBody => true
  | _ => false

/-- The call of `virtio_disk_rw` that is in progress. -/
def call? : Pc → Option Call
  | want c | alloc c | sleepFree c | format c _ | ring c _ | publish c _ | test c _ _
  | sleepDisk c _ _ | wantTest c _ _ => some c
  | _ => none

/-- The descriptors that the call has allocated. -/
def chain? : Pc → Option (Call × Idx)
  | format c x | ring c x | publish c x | test c x _ | sleepDisk c x _ | wantTest c x _ => some (c,x)
  | _ => none

/-- The request, once it is visible to the device. -/
def live? : Pc → Option (Call × Idx × ℕ)
  | test c x k | sleepDisk c x k | wantTest c x k => some (c,x,k)
  | _ => none

def formatted : Pc → Bool
  | ring _ _ | publish _ _ | test _ _ _ | sleepDisk _ _ _ | wantTest _ _ _ => true
  | _ => false

/-- `wakeup(&disk.free[0])`, seen from one thread. -/
def wakeFree : Pc → Pc
  | sleepFree c => want c
  | q => q

/-- `wakeup(b)`, seen from one thread. -/
def wakeBuf (b : ℕ) : Pc → Pc
  | sleepDisk c x k => if c.b = b then wantTest c x k else sleepDisk c x k
  | q => q

end Pc

/-- A request that the device has taken: its position among all heads made visible, the head, and
whether the transfer is done and the status byte written. -/
structure Job where
  ticket : ℕ
  head : ℕ
  done : Bool
  deriving DecidableEq

/-- The job `i` when `j` has been carried out. -/
def Job.after (j i : Job) : Job := if i = j then { j with done := true } else i

/-- A transfer as the device found it in memory. -/
structure Transfer where
  ticket : ℕ
  out : Bool
  sector : ℕ
  b : ℕ
  deriving DecidableEq

/-- `chain` is a fault of the device on a malformed chain, `null` a null pointer in the handler. -/
inductive Panic
  | freeDesc1 | freeDesc2 | status | null | chain
  deriving DecidableEq

/-- How far a request has come, by the number of its head. -/
inductive Phase
  | idle | queued | busy (done : Bool) | used | seen
  deriving DecidableEq

/-- The driver, the buffers and the device. `bdisk` is `b->disk` and `buflock` is the holder of
`b->lock`. The last seven fields are ghosts: all heads ever made visible and the number of those
taken, all heads ever reported and the number of those seen by the handler, the phase of each
head, the transfers done, and the positions of the requests reported. -/
structure Sys where
  disk : Disk
  lock : Option Pid
  bdisk : ℕ → Bool
  buflock : ℕ → Option Pid
  pc : Pid → Pc
  lastAvail : UInt16
  jobs : List Job
  panic : Option Panic
  heads : List ℕ
  taken : ℕ
  reported : List ℕ
  seen : ℕ
  phase : ℕ → Phase
  log : List Transfer
  finished : List ℕ

namespace Sys

def goto (s : Sys) (p : Pid) (q : Pc) : Sys := { s with pc := update s.pc p q }
def release (s : Sys) : Sys := { s with lock := none }
def wakeFree (s : Sys) : Sys := { s with pc := fun p => (s.pc p).wakeFree }
def wakeBuf (s : Sys) (b : ℕ) : Sys := { s with pc := fun p => (s.pc p).wakeBuf b }

end Sys

/-- `alloc_desc`: the first free descriptor. -/
def allocDesc (free : ℕ → Bool) : Option ℕ := (List.range NUM).find? free

/-- `free_desc` with its two panics. -/
def freeDesc (s : Sys) (i : ℕ) : Sys :=
  if NUM ≤ i then { s with panic := some .freeDesc1 }
  else if s.disk.free i then { s with panic := some .freeDesc2 }
  else Sys.wakeFree { s with
    disk := { s.disk with
      desc := update s.disk.desc i .zero
      free := update s.disk.free i true } }

def markUsed (s : Sys) (i : ℕ) : Sys :=
  { s with disk := { s.disk with free := update s.disk.free i false } }

/-- `alloc3_desc`: three descriptors, or those found so far are freed again. -/
def alloc3Desc (s : Sys) : Option Idx × Sys :=
  match allocDesc s.disk.free with
  | none => (none,s)
  | some i0 =>
    let s₁ := markUsed s i0
    match allocDesc s₁.disk.free with
    | none => (none,freeDesc s₁ i0)
    | some i1 =>
      let s₂ := markUsed s₁ i1
      match allocDesc s₂.disk.free with
      | none => (none,freeDesc (freeDesc s₂ i0) i1)
      | some i2 => (some ⟨i0,i1,i2⟩,markUsed s₂ i2)

/-- `free_chain`. A chain that comes back to a descriptor runs into a panic of `free_desc`, so the
bound on the number of rounds is never the reason to stop. -/
def freeChain : ℕ → Sys → ℕ → Sys
  | 0,s,_ => s
  | fuel+1,s,i =>
    let d := s.disk.desc i
    let t := freeDesc s i
    if t.panic = none ∧ d.flags &&& VRING_DESC_F_NEXT ≠ 0 then freeChain fuel t d.next else t

/-- The three descriptors of a request as `virtio_disk_rw` fills them in, with `info` and `ops`. -/
def formatDisk (d : Disk) (c : Call) (x : Idx) : Disk :=
  { d with
    ops := update d.ops x.i0 { out := c.write, sector := c.sector }
    desc := update (update (update d.desc
      x.i0 { addr := .op x.i0, len := 16, flags := VRING_DESC_F_NEXT, next := x.i1 })
      x.i1 { addr := .data c.b
             len := BSIZE
             flags := (if c.write then 0 else VRING_DESC_F_WRITE) ||| VRING_DESC_F_NEXT
             next := x.i2 })
      x.i2 { addr := .status x.i0, len := 1, flags := VRING_DESC_F_WRITE, next := 0 }
    info := update d.info x.i0 { b := some c.b, status := 0xff } }

/-- The next step of thread `p`. -/
def run (s : Sys) (p : Pid) : Option Sys :=
  match s.pc p with
  | .out | .sleepFree _ | .sleepDisk _ _ _ => none
  | .want c => if s.lock = none then some ({ s with lock := some p }.goto p (.alloc c)) else none
  | .alloc c =>
    match alloc3Desc s with
    | (some x,t) => some (t.goto p (.format c x))
    | (none,t) => some (t.release.goto p (.sleepFree c))
  | .format c x =>
    some ({ s with
      disk := formatDisk s.disk c x
      bdisk := update s.bdisk c.b true }.goto p (.ring c x))
  | .ring c x =>
    let a := s.disk.avail
    some ({ s with
      disk := { s.disk with
        avail := { a with ring := update a.ring (a.idx.toNat%NUM) x.i0 } } }.goto p
      (.publish c x))
  | .publish c x =>
    let a := s.disk.avail
    some ({ s with
      disk := { s.disk with avail := { a with idx := a.idx+1 } }
      heads := s.heads++[x.i0]
      phase := update s.phase x.i0 .queued }.goto p (.test c x s.heads.length))
  | .test c x k =>
    if s.bdisk c.b then some (s.release.goto p (.sleepDisk c x k))
    else
      let i := s.disk.info x.i0
      let s₁ := { s with
        disk := { s.disk with info := update s.disk.info x.i0 { i with b := none } }
        phase := update s.phase x.i0 .idle }
      some ((freeChain (NUM+1) s₁ x.i0).release.goto p .out)
  | .wantTest c x k =>
    if s.lock = none then some ({ s with lock := some p }.goto p (.test c x k)) else none
  | .intrWant =>
    if s.lock = none then some ({ s with lock := some p }.goto p .intrTest) else none
  | .intrTest =>
    if s.disk.usedIdx ≠ s.disk.used.idx then some (s.goto p .intrBody)
    else some (s.release.goto p .out)
  | .intrBody =>
    let id := s.disk.used.ring (s.disk.usedIdx.toNat%NUM)
    if (s.disk.info id).status ≠ 0 then some { s with panic := some .status }
    else
      match (s.disk.info id).b with
      | none => some { s with panic := some .null }
      | some b =>
        some (({ s with
          bdisk := update s.bdisk b false
          disk := { s.disk with usedIdx := s.disk.usedIdx+1 }
          seen := s.seen+1
          phase := update s.phase id .seen }.wakeBuf b).goto p .intrTest)

/-- The request the device finds in the chain at `head`: type and sector, buffer, and the place
for the status byte. -/
def readChain (d : Disk) (head : ℕ) : Option (Op × ℕ × ℕ) :=
  let d0 := d.desc head
  let d1 := d.desc d0.next
  let d2 := d.desc d1.next
  if d0.flags &&& VRING_DESC_F_NEXT ≠ 0 ∧ d1.flags &&& VRING_DESC_F_NEXT ≠ 0 ∧
      d2.flags &&& VRING_DESC_F_NEXT = 0 then
    match d0.addr,d1.addr,d2.addr with
    | .op i,.data b,.status j => some (d.ops i,b,j)
    | _,_,_ => none
  else none

/-- The device takes the next head of the avail ring. -/
def take (s : Sys) : Option Sys :=
  if s.lastAvail ≠ s.disk.avail.idx then
    let head := s.disk.avail.ring (s.lastAvail.toNat%NUM)
    some { s with
      lastAvail := s.lastAvail+1
      jobs := s.jobs++[{ ticket := s.taken, head := head, done := false }]
      taken := s.taken+1
      phase := update s.phase head (.busy false) }
  else none

/-- The device carries out a request it has taken and sets the status byte to 0. -/
def transfer (s : Sys) (j : Job) : Option Sys :=
  if j ∈ s.jobs ∧ j.done = false then
    match readChain s.disk j.head with
    | none => some { s with panic := some .chain }
    | some (op,b,i) =>
      some { s with
        disk := { s.disk with
          info := update s.disk.info i { s.disk.info i with status := 0 } }
        jobs := s.jobs.map j.after
        phase := update s.phase j.head (.busy true)
        log := s.log++[{ ticket := j.ticket, out := op.out, sector := op.sector, b := b }] }
  else none

/-- The device appends the head of a finished request to the used ring. -/
def complete (s : Sys) (j : Job) : Option Sys :=
  if j ∈ s.jobs ∧ j.done = true then
    let u := s.disk.used
    some { s with
      disk := { s.disk with
        used := { idx := u.idx+1, ring := update u.ring (u.idx.toNat%NUM) j.head } }
      jobs := s.jobs.erase j
      reported := s.reported++[j.head]
      phase := update s.phase j.head .used
      finished := s.finished++[j.ticket] }
  else none

/-- What can happen next. A buffer is locked around a call of `virtio_disk_rw`, as `bread` and
`bwrite` do it; `kill` makes a sleeper run without a `wakeup`. -/
inductive Event
  | acquiresleep (p : Pid) (b : ℕ)
  | releasesleep (p : Pid) (b : ℕ)
  | rw (p : Pid) (b : ℕ) (write : Bool) (blockno : ℕ)
  | intr (p : Pid)
  | kill (p : Pid)
  | run (p : Pid)
  | take
  | transfer (j : Job)
  | complete (j : Job)
  deriving DecidableEq

def step (s : Sys) (e : Event) : Option Sys :=
  if s.panic ≠ none then none
  else match e with
  | .acquiresleep p b =>
    if s.pc p = .out ∧ s.buflock b = none then
      some { s with buflock := update s.buflock b (some p) }
    else none
  | .releasesleep p b =>
    if s.pc p = .out ∧ s.buflock b = some p then
      some { s with buflock := update s.buflock b none }
    else none
  | .rw p b write blockno =>
    if s.pc p = .out ∧ s.buflock b = some p then
      some (s.goto p (.want { b := b, write := write, sector := blockno*(BSIZE/512)%2^32 }))
    else none
  | .intr p => if s.pc p = .out then some (s.goto p .intrWant) else none
  | .kill p =>
    match s.pc p with
    | .sleepFree c => some (s.goto p (.want c))
    | .sleepDisk c x k => some (s.goto p (.wantTest c x k))
    | _ => none
  | .run p => run s p
  | .take => take s
  | .transfer j => transfer s j
  | .complete j => complete s j

/-- The state after `virtio_disk_init`. -/
def boot : Sys where
  disk :=
    { desc := fun _ => .zero
      avail := { idx := 0, ring := fun _ => 0 }
      used := { idx := 0, ring := fun _ => 0 }
      free := fun i => decide (i < NUM)
      usedIdx := 0
      info := fun _ => { b := none, status := 0 }
      ops := fun _ => { out := false, sector := 0 } }
  lock := none
  bdisk _ := false
  buflock _ := none
  pc _ := .out
  lastAvail := 0
  jobs := []
  panic := none
  heads := []
  taken := 0
  reported := []
  seen := 0
  phase _ := .idle
  log := []
  finished := []

end Xv6.Virtio
