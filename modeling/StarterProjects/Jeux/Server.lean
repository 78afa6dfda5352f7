import StarterProjects.Jeux.ClientRegistry
import StarterProjects.Jeux.Invitation
import StarterProjects.Jeux.PlayerRegistry
import StarterProjects.Lib.Trace

/-!
# The service thread

`jeux_client_service` of `server.c`: the thread registers its connection, serves one packet
after the other, and returns when no packet comes any more. The functions of `client.h` have
no source, so a `ClientModule` stands for those the thread calls. What the thread receives,
calls and sends is the transcript of its connection.

The functions of the client module get a `CLIENT *`, which is NULL after a refused
registration; nothing can be sent to a NULL client.
-/

namespace StarterProjects.Jeux

open Lib

/-! ## Packets -/

inductive PacketType where
  | login
  | users
  | invite
  | revoke
  | decline
  | accept
  | move
  | resign
  /-- Any other value of the byte. -/
  | unknown
deriving DecidableEq, Repr

/-- `JEUX_PACKET_TYPE`. -/
def PacketType.ofByte (b : UInt8) : PacketType :=
  if b = 1 then .login
  else if b = 2 then .users
  else if b = 3 then .invite
  else if b = 4 then .revoke
  else if b = 5 then .accept
  else if b = 6 then .decline
  else if b = 7 then .move
  else if b = 8 then .resign
  else .unknown

/-- The header fields that the thread reads, and the bytes that follow. -/
structure Packet where
  type : UInt8
  id : UInt8
  role : UInt8
  payload : List Char

def Packet.kind (p : Packet) : PacketType := PacketType.ofByte p.type

/-- NULL when the size is 0. -/
def Packet.pointer (p : Packet) : Option (List Char) :=
  if p.payload = [] then none else some p.payload

/-- The C string at the start of some bytes, if it ends within them. -/
def stringIn (bytes : List Char) : Option CString :=
  if '\x00' ∈ bytes then some (bytes.takeWhile fun c => c ≠ '\x00') else none

/-- The C string behind the payload pointer. -/
def Packet.text (p : Packet) : Option CString := p.pointer.bind stringIn

/-- The value of a `GAME_ROLE`. -/
def GameRole.ofNat : Nat → GameRole
  | 0 => .nullRole
  | 1 => .firstPlayerRole
  | 2 => .secondPlayerRole
  | n => .other n

/-! ## The transcript -/

inductive Reply where
  | ack (id : UInt8) (payload : CString)
  | nack
deriving DecidableEq, Repr

inductive Operation where
  | pregRegister
  | clientLogin
  | cregAllPlayers
  | cregLookup
  | makeInvitation
  | revokeInvitation
  | declineInvitation
  | acceptInvitation
  | makeMove
  | resignGame
deriving DecidableEq, Repr

inductive Event where
  | received (packet : Packet)
  | called (op : Operation)
  | sent (reply : Reply)

abbrev Service := Prog (World × List Event)

/-- The functions of `client.h` that the thread calls. -/
structure ClientModule where
  client_login : Option ClientPtr → Option PlayerPtr → Prog World Int
  client_make_invitation :
    Option ClientPtr → Option ClientPtr → GameRole → GameRole → Prog World Int
  client_revoke_invitation : Option ClientPtr → UInt8 → Prog World Int
  client_decline_invitation : Option ClientPtr → UInt8 → Prog World Int
  client_accept_invitation : Option ClientPtr → UInt8 → Prog World (Int × Option CString)
  client_make_move : Option ClientPtr → UInt8 → Option (List Char) → Prog World Int
  client_resign_game : Option ClientPtr → UInt8 → Prog World Int

/-- What `malloc` and `realloc` find in new memory. -/
structure Storage where
  players : Nat → Option PlayerPtr
  bytes : Nat → Char

def call {α : Type} (op : Operation) (p : Prog World α) : Service α := do
  Prog.emit (.called op)
  p.silent

/-- `client_send_packet`, `client_send_ack` and `client_send_nack`. -/
def send (client : Option ClientPtr) (reply : Reply) : Service Unit :=
  match client with
  | some _ => Prog.emit (.sent reply)
  | none => Prog.stop .undefined

/-- The size of a payload is a field of 16 bits. -/
def ackWith (id : UInt8) (text : CString) : Reply := .ack id (text.take (text.length % 65536))

/-! ## The answer to USERS -/

/-- The string at the start of `buf` gets longer by `s`. -/
def strcat (buf : List Char) (s : CString) : Prog World (List Char) :=
  let n := buf.idxOf '\x00'
  if n + s.length < buf.length then
    return buf.take n ++ s ++ '\x00' :: buf.drop (n + s.length + 1)
  else Prog.stop .undefined

def realloc (storage : Storage) (buf : Option (List Char)) (size : Nat) : List Char :=
  (List.range size).map fun i => ((buf.getD [])[i]?).getD (storage.bytes i)

/-- `sprintf` with `%d`. -/
def decimal : Int → CString
  | .ofNat n => Nat.toDigits 10 n
  | .negSucc n => '-' :: Nat.toDigits 10 (n + 1)

/-- One turn of the loop; `ratingContainer` has 10 characters. -/
def users_line (storage : Storage) (retStr : Option (List Char)) (tempPlayer : PlayerPtr) :
    Prog World (List Char) := do
  let rating ← player_get_rating (some tempPlayer)
  let ratingContainer := decimal rating
  if ratingContainer.length < 10 then
    match ← player_get_name (some tempPlayer) with
    | none => Prog.stop .undefined
    | some name => do
      let curLineLen := name.length + 1 + ratingContainer.length + 1
      let retStr := realloc storage retStr curLineLen
      let retStr ← strcat retStr name
      let retStr ← strcat retStr ['\t']
      let retStr ← strcat retStr ratingContainer
      strcat retStr ['\n']
  else Prog.stop .undefined

/-- `while(tempPlayer != NULL)`. -/
def users_loop (storage : Storage) : List (Option PlayerPtr) → Option (List Char) →
    Prog World (Option (List Char))
  | [], _ => Prog.stop .undefined
  | none :: _, retStr => return retStr
  | some tempPlayer :: rest, retStr => do
    let retStr ← users_line storage retStr tempPlayer
    users_loop storage rest (some retStr)

def users_text (storage : Storage) (playerArr : List (Option PlayerPtr)) : Prog World CString := do
  let retStr ← users_loop storage playerArr none
  match retStr.bind stringIn with
  | some text => return text
  | none => Prog.stop .undefined

/-! ## One packet -/

section Serve

variable (M : ClientModule) (storage : Storage) (curClient : Option ClientPtr)

/-- The reply to a call that returns 0 for success. -/
def sendResult (res : Int) : Service Unit :=
  if res = 0 then send curClient (.ack 0 []) else send curClient .nack

/-- A packet that is honoured after the login only. -/
def honoured (loggedIn : Bool) (body : Service Unit) : Service Bool := do
  if loggedIn then body else send curClient .nack
  return loggedIn

/-- A call with the payload as a string: the callee reads it at once. -/
def withText {α : Type} (p : Packet) (f : CString → Prog World α) : Prog World α :=
  match p.text with
  | some text => f text
  | none => Prog.stop .undefined

def serve_login (loggedIn : Bool) (p : Packet) : Service Bool :=
  if loggedIn then do
    send curClient .nack
    return true
  else do
    let curPlayer ← call .pregRegister (withText p preg_register)
    let res ← call .clientLogin (M.client_login curClient curPlayer)
    if res = 0 then
      send curClient (.ack 0 [])
      return true
    else
      send curClient .nack
      return false

def serve_users : Service Unit := do
  let playerArr ← call .cregAllPlayers (creg_all_players storage.players)
  let text ← (users_text storage playerArr).silent
  send curClient (ackWith 0 text)

def serve_invite (p : Packet) : Service Unit := do
  let otherClient ← call .cregLookup (withText p creg_lookup)
  let senderRole := p.role.toNat
  let targetRole := if senderRole = 2 then 1 else 2
  let invID ← call .makeInvitation (M.client_make_invitation curClient otherClient
    (GameRole.ofNat targetRole) (GameRole.ofNat senderRole))
  if invID ≠ -1 then
    send curClient (.ack (UInt8.ofNat (invID % 256).toNat) [])
  else
    send curClient .nack

def serve_accept (p : Packet) : Service Unit := do
  let (res, retMsg) ← call .acceptInvitation (M.client_accept_invitation curClient p.id)
  if res = 0 then
    match retMsg with
    | some text => send curClient (ackWith 0 text)
    | none => send curClient (.ack 0 [])
  else
    send curClient .nack

/-- The `switch` on the type of the packet; the result is the new `loggedIn`. -/
def serve (loggedIn : Bool) (p : Packet) : Service Bool :=
  match p.kind with
  | .login => serve_login M curClient loggedIn p
  | .users => honoured curClient loggedIn (serve_users storage curClient)
  | .invite => honoured curClient loggedIn (serve_invite M curClient p)
  | .revoke => honoured curClient loggedIn do
    sendResult curClient
      (← call .revokeInvitation (M.client_revoke_invitation curClient p.id))
  | .decline => honoured curClient loggedIn do
    sendResult curClient
      (← call .declineInvitation (M.client_decline_invitation curClient p.id))
  | .accept => honoured curClient loggedIn (serve_accept M curClient p)
  | .move => honoured curClient loggedIn do
    sendResult curClient
      (← call .makeMove (M.client_make_move curClient p.id p.pointer))
  | .resign => honoured curClient loggedIn do
    sendResult curClient
      (← call .resignGame (M.client_resign_game curClient p.id))
  | .unknown => do
    send curClient .nack
    return loggedIn

/-- While the thread waits in `proto_recv_packet` the other threads do something; then a
packet comes. -/
structure Arrival where
  others : World → World
  packet : Packet

def proto_recv_packet (a : Arrival) : Service Packet :=
  .act (fun s => some (a.others s.1, s.2 ++ [.received a.packet])) fun _ => .ret a.packet

/-- The `while(true)` loop; it ends when no packet comes any more. -/
def service_loop : Bool → List Arrival → Service Unit
  | _, [] => return ()
  | loggedIn, a :: rest => do
    let p ← proto_recv_packet a
    let loggedIn ← serve M storage curClient loggedIn p
    service_loop loggedIn rest

end Serve

/-- The thread of a connection on which these packets come; `newClient` is what
`client_create` returns. -/
def jeux_client_service (M : ClientModule) (storage : Storage) (newClient : ClientPtr)
    (arrivals : List Arrival) : Service Unit := do
  let curClient ← (creg_register newClient).silent
  service_loop M storage curClient false arrivals

/-- A client module for one client, which nobody plays with. -/
def lonely : ClientModule where
  client_login := fun client player? => match client with
    | some c => do
      setPlayer c player?
      return 0
    | none => return -1
  client_make_invitation := fun _ _ _ _ => return -1
  client_revoke_invitation := fun _ _ => return -1
  client_decline_invitation := fun _ _ => return -1
  client_accept_invitation := fun _ _ => return (-1, none)
  client_make_move := fun _ _ _ => return -1
  client_resign_game := fun _ _ => return -1

def zeroed : Storage := ⟨fun _ => none, fun _ => '\x00'⟩

end StarterProjects.Jeux
