import Framewise.Service.Answer
import Std.Http
import Std.Time

/-!
# Listening

The service on a socket. Requests are handed to `respond` as they come and answers are sent as
it gives them; nothing is decided here. The store is kept in a reference that one request at a
time may change.
-/

namespace Framewise.Service

/-- Milliseconds since the epoch. -/
def clock : IO Float := do
  return Float.ofInt (← Std.Time.Timestamp.now).toMillisecondsSinceUnixEpoch.val

/-- Write a notice, an entry with the time in front of it. -/
def writeNotice (notice : Notice) : IO Unit := do
  let errors ← IO.getStderr
  match notice with
  | .entry e => errors.putStrLn (e.line (← clock))
  | .text s => errors.putStr s
  errors.flush

/-- A running service. -/
structure Session where
  settings : Settings
  store : IO.Ref Store

/-- The request that a message makes. -/
def requestOf (head : Std.Http.Request.Head) (bytes : ByteArray) : Request where
  method := .ofName (toString head.method)
  target := toString head.uri
  body :=
    match head.headers.get? .contentType with
    | none => .absent
    | some type => .content type.value (.bytes bytes.toList)

/-- The headers that keep an answer from being kept. -/
def cachingHeaders (b : Std.Http.Response.Builder) (control : Option String) :
    Std.Http.Response.Builder :=
  match control.bind Std.Http.Header.Value.ofString? with
  | none => b
  | some value => ((b.header ⟨"cache-control", by decide, by decide⟩ value).header
      ⟨"pragma", by decide, by decide⟩ ⟨"no-cache", by decide⟩).header
      ⟨"expires", by decide, by decide⟩ ⟨"0", by decide⟩

/-- The message that an answer is sent as. -/
def messageOf (a : Answer) : Std.Async.Async (Std.Http.Response Std.Http.Body.Full) :=
  let status := (Std.Http.Status.ofCode none (UInt16.ofNat a.status)).getD .internalServerError
  let builder := cachingHeaders (Std.Http.Response.withStatus status) a.cacheControl
  match a.body with
  | some document => builder.json document.compact
  | none => builder.text ""

instance : Std.Http.Server.Handler Session where
  ResponseBody := Std.Http.Body.Full
  onRequest session message := do
    let bytes : ByteArray ← message.body.readAll
    let began ← IO.monoMsNow
    let request := requestOf message.line bytes
    let answer ← session.store.modifyGet fun store => respond session.settings store request
    let elapsed := (← IO.monoMsNow) - began
    (answer.entries elapsed).forM fun e => writeNotice (.entry e)
    messageOf answer

/-- The socket address of an address. -/
def socketAddress? (a : Address) : Option Std.Net.SocketAddress :=
  let port := UInt16.ofNat a.port
  let host := if a.host = "localhost" then "127.0.0.1" else a.host
  match Std.Net.IPv4Addr.ofString host with
  | some ip => some (.v4 ⟨ip, port⟩)
  | none => (Std.Net.IPv6Addr.ofString host).map fun ip => .v6 ⟨ip, port⟩

/-- The limits of what is received: a file of the greatest size fits, with its form. -/
def limits : Std.Http.Config where
  maxBodySize := longFileBytes + maxJsonBytes

/-- Serve a store until the process ends. -/
def listen (settings : Settings) (store : Store) (address : Address) : IO Unit := do
  match socketAddress? address with
  | none => throw (IO.userError ("no such host: " ++ address.host))
  | some socket =>
    let session : Session := { settings, store := ← IO.mkRef store }
    (do
      let server ← Std.Http.Server.serve socket session limits
      server.waitShutdown : Std.Async.Async Unit).block

end Framewise.Service
