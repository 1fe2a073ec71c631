import Dddatasync.Library.OsString
import Mathlib.Data.Finset.Sort
import Mathlib.Data.String.Basic
import Mathlib.Tactic

/-!
Addresses: iroh's `EndpointAddr` and its form on the wire, `EndpointAddrWire` of
`src/sync.rs`.

* `Codec`: printing and parsing of node ids, socket addresses, relay URLs and hashes,
  which are code of other crates; parsing undoes printing.  `Hash::from_str` panics on a text
  of a wrong length.
* `EndpointAddr`, `EndpointAddrWire`, `fromEndpointAddr`, `toEndpointAddr`.
-/

namespace Dddatasync

open OsString

/-- `Display` and `FromStr` of the types an address and an offer are made of.  A text that
`parseHash` does not take is refused with an error or, if `hashPanics`, with a panic. -/
structure Codec (NodeId Sock Relay Hash : Type*) where
  printNodeId : NodeId → String
  parseNodeId : String → Option NodeId
  printSock : Sock → String
  parseSock : String → Option Sock
  printRelay : Relay → String
  parseRelay : String → Option Relay
  printHash : Hash → String
  parseHash : String → Option Hash
  hashPanics : String → Bool
  parse_printNodeId : ∀ x, parseNodeId (printNodeId x) = some x
  parse_printSock : ∀ x, parseSock (printSock x) = some x
  parse_printRelay : ∀ x, parseRelay (printRelay x) = some x
  parse_printHash : ∀ x, parseHash (printHash x) = some x

attribute [simp] Codec.parse_printNodeId Codec.parse_printSock Codec.parse_printRelay
  Codec.parse_printHash

/-- Printing and parsing for types that are text already. -/
def textCodec : Codec String String String String where
  printNodeId := id
  parseNodeId := some
  printSock := id
  parseSock := some
  printRelay := id
  parseRelay := some
  printHash := id
  parseHash := some
  hashPanics := fun _ => false
  parse_printNodeId := fun _ => rfl
  parse_printSock := fun _ => rfl
  parse_printRelay := fun _ => rfl
  parse_printHash := fun _ => rfl

/-- The same with node ids that are not empty. -/
def namedCodec : Codec { s : String // s ≠ "" } String String String where
  printNodeId := Subtype.val
  parseNodeId := fun s => if h : s ≠ "" then some ⟨s, h⟩ else none
  printSock := id
  parseSock := some
  printRelay := id
  parseRelay := some
  printHash := id
  parseHash := some
  hashPanics := fun _ => false
  parse_printNodeId := fun x => dif_pos x.2
  parse_printSock := fun _ => rfl
  parse_printRelay := fun _ => rfl
  parse_printHash := fun _ => rfl

/-- A hash as 64 hexadecimal digits. -/
def zeroHash : String := "0000000000000000000000000000000000000000000000000000000000000000"

/-- Texts of 64 bytes in the place of hashes. -/
abbrev HashText := { s : String // (ofStr s).length = 64 }

/-- The same with hashes of 64 bytes: other texts of 52 bytes are refused, and the parser panics
on a text of any other length. -/
def hashCodec : Codec { s : String // s ≠ "" } String String HashText where
  printNodeId := Subtype.val
  parseNodeId := namedCodec.parseNodeId
  printSock := id
  parseSock := some
  printRelay := id
  parseRelay := some
  printHash := Subtype.val
  parseHash := fun s => if h : (ofStr s).length = 64 then some ⟨s, h⟩ else none
  hashPanics := fun s => decide ((ofStr s).length ≠ 64 ∧ (ofStr s).length ≠ 52)
  parse_printNodeId := fun x => dif_pos x.2
  parse_printSock := fun _ => rfl
  parse_printRelay := fun _ => rfl
  parse_printHash := fun x => dif_pos x.2

/-- `EndpointAddr`: a node id with its direct addresses and relays, both kept as ordered
sets. -/
structure EndpointAddr (NodeId Sock Relay : Type*) where
  id : NodeId
  ipAddrs : Finset Sock
  relayUrls : Finset Relay
  deriving DecidableEq

/-- `EndpointAddrWire`. -/
structure EndpointAddrWire where
  nodeId : String
  addrs : List String
  relayUrl : Option String
  deriving DecidableEq, Repr

/-- Why an address on the wire is refused. -/
inductive AddrError where
  | nodeId
  | directAddr
  | relayUrl
  deriving DecidableEq, Repr

/-- The context text of an address error. -/
def AddrError.message : AddrError → String
  | .nodeId => "parse node_id"
  | .directAddr => "parse direct addr"
  | .relayUrl => "parse relay_url"

variable {NodeId Sock Relay Hash : Type*} [LinearOrder Sock] [LinearOrder Relay]

/-- All direct addresses, printed in order. -/
def EndpointAddr.printedAddrs (a : EndpointAddr NodeId Sock Relay)
    (k : Codec NodeId Sock Relay Hash) : List String :=
  (a.ipAddrs.sort (· ≤ ·)).map k.printSock

/-- The first relay, printed. -/
def EndpointAddr.printedRelay (a : EndpointAddr NodeId Sock Relay)
    (k : Codec NodeId Sock Relay Hash) : Option String :=
  (a.relayUrls.sort (· ≤ ·)).head?.map k.printRelay

/-- The address with the first of its relays only. -/
def EndpointAddr.firstRelay (a : EndpointAddr NodeId Sock Relay) :
    EndpointAddr NodeId Sock Relay :=
  { a with relayUrls := (a.relayUrls.sort (· ≤ ·)).head?.toFinset }

/-- `EndpointAddrWire::from_endpoint_addr`. -/
def fromEndpointAddr (k : Codec NodeId Sock Relay Hash) (a : EndpointAddr NodeId Sock Relay) :
    EndpointAddrWire where
  nodeId := k.printNodeId a.id
  addrs := a.printedAddrs k
  relayUrl := a.printedRelay k

/-- The loop over the direct addresses. -/
def withIpAddrs (k : Codec NodeId Sock Relay Hash) :
    List String → EndpointAddr NodeId Sock Relay →
      Except AddrError (EndpointAddr NodeId Sock Relay)
  | [], a => .ok a
  | s :: ss, a =>
      match k.parseSock s with
      | none => .error .directAddr
      | some sa => withIpAddrs k ss { a with ipAddrs := insert sa a.ipAddrs }

/-- `EndpointAddrWire::to_endpoint_addr`. -/
def toEndpointAddr (k : Codec NodeId Sock Relay Hash) (w : EndpointAddrWire) :
    Except AddrError (EndpointAddr NodeId Sock Relay) :=
  match k.parseNodeId w.nodeId with
  | none => .error .nodeId
  | some id =>
      match withIpAddrs k w.addrs ⟨id, ∅, ∅⟩ with
      | .error e => .error e
      | .ok a =>
          match w.relayUrl with
          | none => .ok a
          | some relay =>
              match k.parseRelay relay with
              | none => .error .relayUrl
              | some url => .ok { a with relayUrls := insert url a.relayUrls }

end Dddatasync
