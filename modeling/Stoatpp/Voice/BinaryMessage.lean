import Stoatpp.Voice.Reader

/-!
# `handle_binary_message`

The parser of the voice connection is seven `while (has_more())` loops, nested up to
three deep. Each reads a key, looks the field up and either reads it, cuts a nested
reader for it or skips it. `fieldLoop` is that loop; a table says what the loop does with
a field number and a wire type, and every loop of the source is one table.
-/

namespace Stoatpp.Voice
open Stoatpp.Library

abbrev Parser := Process Fault Event

/-- `int field_num = key >> 3` keeps the low 32 bits. -/
def fieldNum (key : UInt64) : ℤ := (BitVec.ofNat 32 (key.toNat >>> 3)).toInt

def wireType (key : UInt64) : ℕ := key.toNat % 8

/-- What a loop does with one field. -/
inductive Action (σ : Type) where
  | text (store : σ → List UInt8 → σ)
  | number (store : σ → UInt64 → σ)
  | message (parse : Reader → σ → Parser σ)
  | skip

variable {σ : Type}

def Action.perform (m : Memory) (wire : ℕ) : Action σ → Reader → σ → Parser (Reader × σ)
  | .text store, r, s => do
    let x ← .lift (readString m r)
    pure (x.2, store s x.1)
  | .number store, r, s => do
    let x ← .lift (readVarint m r)
    pure (x.2, store s x.1)
  | .message parse, r, s => do
    let x ← .lift (nested m r)
    let s ← parse x.1 s
    pure (x.2, s)
  | .skip, r, s => do
    let r ← .lift (skipField m r wire)
    pure (r, s)

/-- One iteration: the key, the field, and a record of where the reader went. -/
def fieldStep (m : Memory) (table : ℤ → ℕ → Action σ) (x : Reader × σ) : Parser (Reader × σ) := do
  let key ← .lift (readVarint m x.1)
  let y ← (table (fieldNum key.1) (wireType key.1)).perform m (wireType key.1) key.2 x.2
  Process.lift (.emit [.iteration x.1 y.1])
  pure y

/-- `while (r.has_more()) { … }`, giving the accumulated variables. -/
def fieldLoop (m : Memory) (table : ℤ → ℕ → Action σ) (r : Reader) (s : σ) : Parser σ := do
  let x ← Process.whileLoop (fun x => x.1.hasMore) (fieldStep m table) (r, s)
  pure x.2

def signal (s : Signal) : Parser Unit := .lift (.emit [.signal s])

/-! ## The loops of the source -/

variable (m : Memory)

def iceServerTable : ℤ → ℕ → Action IceServerInfo := fun field wire =>
  if field = 1 ∧ wire = 2 then .text fun s url => { s with urls := s.urls ++ [url] }
  else if field = 2 ∧ wire = 2 then .text fun s name => { s with username := name }
  else if field = 3 ∧ wire = 2 then .text fun s credential => { s with credential := credential }
  else .skip

def iceServer (r : Reader) (_ : Unit) : Parser Unit := do
  let info ← fieldLoop m iceServerTable r ⟨[], [], []⟩
  signal (.iceServer info)

def joinTable : ℤ → ℕ → Action Unit := fun field wire =>
  if field = 5 ∧ wire = 2 then .message (iceServer m) else .skip

def parseJoinResponse (r : Reader) (_ : Unit) : Parser Unit := do
  fieldLoop m (joinTable m) r ()
  signal .joinResponse

structure SessionDescription where
  sdpType : List UInt8
  sdpText : List UInt8

def sdpTable : ℤ → ℕ → Action SessionDescription := fun field wire =>
  if field = 1 ∧ wire = 2 then .text fun s type => { s with sdpType := type }
  else if field = 2 ∧ wire = 2 then .text fun s text => { s with sdpText := text }
  else .skip

def offer (r : Reader) (_ : Unit) : Parser Unit := do
  let sdp ← fieldLoop m sdpTable r ⟨[], []⟩
  signal (.offer sdp.sdpText)

def answer (r : Reader) (_ : Unit) : Parser Unit := do
  let sdp ← fieldLoop m sdpTable r ⟨[], []⟩
  signal (.answer sdp.sdpText)

structure Trickle where
  candInit : List UInt8
  target : ℤ

def trickleTable : ℤ → ℕ → Action Trickle := fun field wire =>
  if field = 1 ∧ wire = 2 then .text fun s candidate => { s with candInit := candidate }
  else if field = 2 ∧ wire = 0 then
    .number fun s target => { s with target := (BitVec.ofNat 32 target.toNat).toInt }
  else .skip

def trickle (r : Reader) (_ : Unit) : Parser Unit := do
  let t ← fieldLoop m trickleTable r ⟨[], 0⟩
  signal (.trickle t.candInit t.target)

structure TrackPublished where
  cid : List UInt8
  sid : List UInt8

def trackTable : ℤ → ℕ → Action TrackPublished := fun field wire =>
  if field = 1 ∧ wire = 2 then .text fun s sid => { s with sid := sid } else .skip

def trackPublishedTable : ℤ → ℕ → Action TrackPublished := fun field wire =>
  if field = 1 ∧ wire = 2 then .text fun s cid => { s with cid := cid }
  else if field = 2 ∧ wire = 2 then .message (fieldLoop m trackTable)
  else .skip

def trackPublished (r : Reader) (_ : Unit) : Parser Unit := do
  let t ← fieldLoop m (trackPublishedTable m) r ⟨[], []⟩
  signal (.trackPublished t.cid t.sid)

def messageTable : ℤ → ℕ → Action Unit := fun field wire =>
  if field = 1 ∧ wire = 2 then .message (parseJoinResponse m)
  else if field = 3 ∧ wire = 2 then .message (offer m)
  else if field = 2 ∧ wire = 2 then .message (answer m)
  else if field = 4 ∧ wire = 2 then .message (trickle m)
  else if field = 6 ∧ wire = 2 then .message (trackPublished m)
  else .skip

/-- The reader over the whole message. -/
def Memory.root (m : Memory) : Reader := ⟨0, m.message.length, 0⟩

def handleBinaryMessage : Parser Unit := fieldLoop m (messageTable m) m.root ()

end Stoatpp.Voice
