import Reticulum.Table

/-! Delivery tickets (lxmf/tickets.go). -/

namespace Reticulum.Lxmf

/-- A `time.Time`, as its `UnixNano`. -/
abbrev Time := Int

/-- `peerTime`: seconds as a float64. -/
def peerTime (t : Time) : Float := Float.ofInt t / 1e9

structure TicketEntry where
  expires : Float
  ticket : Bytes
deriving DecidableEq

structure TicketStore where
  lastDeliveries : Table Float := ∅
  inbound : Table (Table TicketEntry) := ∅
  outbound : Table TicketEntry := ∅

namespace TicketStore

def rememberOutboundTicket (s : TicketStore) (destinationHash : Bytes) (entry : TicketEntry) : TicketStore :=
  { s with outbound := s.outbound.insert destinationHash entry }

/-- `InboundTickets`: the tickets of a destination that have not expired, in some order. -/
def inboundTickets (s : TicketStore) (destinationHash : Bytes) (now : Time) : List Bytes :=
  match s.inbound.lookup destinationHash with
  | none => []
  | some entries => (entries.entries.map Sigma.snd).filterMap fun entry =>
      if entry.expires > peerTime now then some entry.ticket else none

end TicketStore

end Reticulum.Lxmf
