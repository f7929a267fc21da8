import ThinkLocal.Foundation.Machine
import ThinkLocal.Mcp.Forwarding

/-!
# One hop

A network of nodes that forward requests.  What a node sends carries a hop count, and a node that
reads one sends nothing, so every request of a client is sent on once at most.
-/

namespace ThinkLocal.Mcp

open Foundation

open Js (Number)

/-! ## One hop in a network -/

/-- A request on its way, with the number that its client's request got. -/
structure HopMessage where
  origin : Nat
  hop : Option HeaderValue

/-- `forwarded` lists the origins of all requests that nodes have sent on. -/
structure HopNetwork where
  next : Nat
  inFlight : List HopMessage
  forwarded : List Nat

/-- A node that receives a request may have any state, and the request any other content. -/
inductive HopAction (Body : Type)
  | submit (hop : Option HeaderValue)
  | deliver (index : Nat) (node : ForwardNode Body) (input : McpIngressInput)
  | lose (index : Nat)

/-- The header that `createUndiciMcpForward` sets. -/
def hopHeader (forward : McpHttpForwardRequest) : HeaderValue :=
  .single (String.ofList forward.hop.text)

def hopNetwork (Body : Type) (platform : Platform) : Machine HopNetwork (HopAction Body) where
  init := ⟨0, [], []⟩
  step s
    | .submit hop => some { s with next := s.next + 1, inFlight := s.inFlight ++ [⟨s.next, hop⟩] }
    | .lose index => some { s with inFlight := s.inFlight.eraseIdx index }
    | .deliver index node input =>
        s.inFlight[index]?.map fun message =>
          let sent := node.sent platform ⟨input, message.hop⟩
          { s with
            inFlight := s.inFlight.eraseIdx index ++
              sent.map fun forward => ⟨message.origin, some (hopHeader forward)⟩
            forwarded := s.forwarded ++ sent.map fun _ => message.origin }

/-- Every origin has one request on its way at most, and one that was sent on says so. -/
structure HopNetwork.Inv (s : HopNetwork) : Prop where
  forwarded : s.forwarded.Nodup
  single : (s.inFlight.map HopMessage.origin).Nodup
  forwarded_lt : ∀ origin ∈ s.forwarded, origin < s.next
  inFlight_lt : ∀ message ∈ s.inFlight, message.origin < s.next
  spent : ∀ message ∈ s.inFlight, message.origin ∈ s.forwarded →
    readIncomingHop message.hop ≠ .ofInt 0

theorem readIncomingHop_hopHeader {forward : McpHttpForwardRequest}
    (h : forward.hop = .ofInt 1) : readIncomingHop (some (hopHeader forward)) ≠ .ofInt 0 := by
  rw [hopHeader, h]
  decide +kernel

/-- An entry of a list without duplicates is gone when it is erased. -/
theorem notMem_eraseIdx {messages : List HopMessage} {index : Nat} {message : HopMessage}
    (hsingle : (messages.map HopMessage.origin).Nodup) (h : messages[index]? = some message) :
    message.origin ∉ (messages.eraseIdx index).map HopMessage.origin := by
  intro hmem
  obtain ⟨other, hother, horigin⟩ := List.mem_map.mp hmem
  obtain ⟨i, hi, hget⟩ := List.mem_eraseIdx_iff_getElem?.mp hother
  have hlt : i < (messages.map HopMessage.origin).length := by
    rw [List.length_map]
    exact (List.getElem?_eq_some_iff.mp hget).1
  refine hi ((List.getElem?_inj hlt hsingle).mp ?_)
  rw [List.getElem?_map, List.getElem?_map, hget, h, Option.map_some, Option.map_some, horigin]

namespace HopNetwork.Inv

variable {s : HopNetwork}

theorem submit (hinv : s.Inv) (hop : Option HeaderValue) :
    HopNetwork.Inv
      { s with next := s.next + 1, inFlight := s.inFlight ++ [⟨s.next, hop⟩] } where
  forwarded := hinv.forwarded
  single := by
    rw [List.map_append, List.map_singleton]
    refine hinv.single.append (List.nodup_singleton _) ?_
    rw [List.disjoint_singleton]
    intro hmem
    obtain ⟨message, hmessage, horigin⟩ := List.mem_map.mp hmem
    exact (hinv.inFlight_lt message hmessage).ne horigin
  forwarded_lt origin horigin := Nat.lt_succ_of_lt (hinv.forwarded_lt origin horigin)
  inFlight_lt message hmessage := by
    rcases List.mem_append.mp hmessage with hmessage | hmessage
    · exact Nat.lt_succ_of_lt (hinv.inFlight_lt message hmessage)
    · obtain rfl := List.mem_singleton.mp hmessage
      exact Nat.lt_succ_self _
  spent message hmessage hforwarded := by
    rcases List.mem_append.mp hmessage with hmessage | hmessage
    · exact hinv.spent message hmessage hforwarded
    · -- nothing was sent on for a new request
      obtain rfl := List.mem_singleton.mp hmessage
      exact absurd (hinv.forwarded_lt _ hforwarded) (lt_irrefl _)

/-- A request that is lost, or read without being sent on. -/
theorem erase (hinv : s.Inv) (index : Nat) :
    HopNetwork.Inv { s with inFlight := s.inFlight.eraseIdx index } := by
  have hsub := List.eraseIdx_sublist s.inFlight index
  exact ⟨hinv.forwarded, hinv.single.sublist (hsub.map _), hinv.forwarded_lt,
    fun message hmessage => hinv.inFlight_lt message (hsub.subset hmessage),
    fun message hmessage => hinv.spent message (hsub.subset hmessage)⟩

/-- A request that was not sent on before is sent on as one that says so. -/
theorem forward (hinv : s.Inv) {index : Nat} {message : HopMessage}
    (hget : s.inFlight[index]? = some message) (hzero : readIncomingHop message.hop = .ofInt 0)
    {hop : Option HeaderValue} (hhop : readIncomingHop hop ≠ .ofInt 0) :
    HopNetwork.Inv
      { s with
        inFlight := s.inFlight.eraseIdx index ++ [⟨message.origin, hop⟩]
        forwarded := s.forwarded ++ [message.origin] } := by
  have herased := hinv.erase index
  have hlt := hinv.inFlight_lt message (List.mem_of_getElem? hget)
  have hfresh : message.origin ∉ s.forwarded := fun hspent =>
    hinv.spent message (List.mem_of_getElem? hget) hspent hzero
  have hgone := notMem_eraseIdx hinv.single hget
  refine ⟨?_, ?_, fun origin horigin => ?_, fun m hm => ?_, fun m hm hforwarded => ?_⟩
  · exact hinv.forwarded.append (List.nodup_singleton _) (List.disjoint_singleton.mpr hfresh)
  · rw [List.map_append, List.map_singleton]
    exact herased.single.append (List.nodup_singleton _) (List.disjoint_singleton.mpr hgone)
  · rcases List.mem_append.mp horigin with horigin | horigin
    · exact hinv.forwarded_lt origin horigin
    · obtain rfl := List.mem_singleton.mp horigin
      exact hlt
  · rcases List.mem_append.mp hm with hm | hm
    · exact herased.inFlight_lt m hm
    · obtain rfl := List.mem_singleton.mp hm
      exact hlt
  · rcases List.mem_append.mp hm with hm | hm
    · rcases List.mem_append.mp hforwarded with hforwarded | hforwarded
      · exact herased.spent m hm hforwarded
      · -- no other request has the origin of the one that is sent on
        rw [List.mem_singleton] at hforwarded
        exact absurd (List.mem_map.mpr ⟨m, hm, hforwarded⟩) hgone
    · obtain rfl := List.mem_singleton.mp hm
      exact hhop

end HopNetwork.Inv

section Network

variable {Body : Type} {platform : Platform} {s s' : HopNetwork} {action : HopAction Body}

theorem hopNetwork_inv_step (hinv : s.Inv)
    (h : (hopNetwork Body platform).step s action = some s') : s'.Inv := by
  cases action with
  | submit hop =>
      obtain rfl := Option.some.inj h
      exact hinv.submit hop
  | lose index =>
      obtain rfl := Option.some.inj h
      exact hinv.erase index
  | deliver index node input =>
      obtain ⟨message, hget, rfl⟩ := Option.map_eq_some_iff.mp h
      have hlength := length_sent_le platform node ⟨input, message.hop⟩
      have hhop : ∀ forward ∈ node.sent platform ⟨input, message.hop⟩,
          forward.hop = .ofInt 1 ∧ readIncomingHop message.hop = .ofInt 0 :=
        fun forward hforward => ⟨forward_hop hforward, hop_of_sent hforward⟩
      dsimp only
      generalize node.sent platform ⟨input, message.hop⟩ = sent at hlength hhop
      match sent, hlength with
      | [], _ =>
          rw [List.map_nil, List.map_nil, List.append_nil, List.append_nil]
          exact hinv.erase index
      | [forward], _ =>
          obtain ⟨hone, hzero⟩ := hhop forward (List.mem_singleton_self _)
          exact hinv.forward hget hzero (readIncomingHop_hopHeader hone)

theorem hopNetwork_inv (h : (hopNetwork Body platform).Reachable s) : s.Inv := by
  refine h.invariant ?_ fun s action s' hinv hstep => hopNetwork_inv_step hinv hstep
  constructor
  · exact List.nodup_nil
  · exact List.nodup_nil
  · exact fun _ hmem => absurd hmem List.not_mem_nil
  · exact fun _ hmem => absurd hmem List.not_mem_nil
  · exact fun _ hmem => absurd hmem List.not_mem_nil

end Network

end ThinkLocal.Mcp
