import ThinkLocal.Js.JsonRoundTrip
import ThinkLocal.Pairing.PairedPeersFile

/-!
# What is left of the pairings

A file that is cut off in a write is not parsed, so the next start knows no pairing at all.  A start
loads of an agent the last entry before the first `null`; a pairing that is not loaded stays in the
file until the first change writes what was loaded.
-/

namespace ThinkLocal.PairingFile

open Foundation Js

variable {s s' : State} {peers : Peers} {entry : Json} {peer : PairedPeer} {place : Nat} {agentId : String}

/-! ## Entries -/

def isNull : Json → Bool
  | .null => true
  | _ => false

/-- The agent that an entry names, if it names one by a text. -/
def agentIdOf : Json → Option String
  | .object fields => textField fields "agentId"
  | _ => none

theorem agentKey_eq_none : agentKey place entry = none ↔ isNull entry = true := by
  cases entry <;> simp [agentKey, isNull]

theorem agentKey_eq_string :
    agentKey place entry = some (.string agentId) ↔ agentIdOf entry = some agentId := by
  cases entry with
  | object fields =>
      rw [agentKey, agentIdOf, textField]
      cases Json.fieldOf fields "agentId" with
      | none => simp
      | some value => cases value <;> simp
  | _ => simp [agentKey, agentIdOf]

theorem agentIdOf_of_pairing (h : pairing entry = some peer) :
    agentIdOf entry = some peer.agentId := by
  cases entry with
  | object fields =>
      obtain ⟨agentId, hid, h⟩ := Option.bind_eq_some_iff.mp h
      simp only [Option.bind_eq_bind, Option.bind_eq_some_iff] at h
      obtain ⟨_, -, _, -, _, -, _, -, _, -, heq⟩ := h
      obtain rfl := Option.some.inj heq
      exact hid
  | _ => cases h

theorem pairing_json (peer : PairedPeer) : pairing peer.json = some peer := rfl

theorem keyedOnce_json (peer : PairedPeer) : peer.json.KeyedOnce := by
  change (["agentId", "publicKeyPem", "caCertPem", "fingerprint", "pairedAt", "hostname"] :
    List String).Nodup
  decide

theorem textField_reread {fields : List (String × Json)} (h : (fields.map Prod.fst).Nodup)
    (key : String) :
    textField (Json.ofFields (Json.rereadFields fields)) key = textField fields key := by
  rw [textField, Json.fieldOf_reread h, textField]
  cases Json.fieldOf fields key with
  | none => rfl
  | some value =>
      cases value with
      | number x => cases x <;> rfl
      | _ => rfl

/-- An entry that is written and read back is the same pairing. -/
theorem pairing_reread (h : entry.KeyedOnce) : pairing entry.reread = pairing entry := by
  cases entry with
  | object fields => simp only [Json.reread, pairing, textField_reread h]
  | number x => cases x <;> rfl
  | _ => rfl

/-! ## Loading -/

/-- The last entry of an agent before the first `null`. -/
def lastEntry (entries : List Json) (agentId : String) : Option Json :=
  (entries.takeWhile fun entry => ! isNull entry).reverse.find? fun entry =>
    agentIdOf entry = some agentId

theorem lastEntry_cons (entries : List Json) (h : isNull entry = false) :
    lastEntry (entry :: entries) agentId =
      (lastEntry entries agentId).or (if agentIdOf entry = some agentId then some entry else none) := by
  rw [lastEntry, List.takeWhile_cons_of_pos (by simp [h]), List.reverse_cons, List.find?_append]
  congr 1
  by_cases hid : agentIdOf entry = some agentId <;> simp [hid]

/-- The loop ends with the last entry of each agent. -/
theorem get_loadFrom (entries : List Json) (place : Nat) (peers : Peers) :
    (loadFrom place entries peers).get (.string agentId) =
      (lastEntry entries agentId).or (peers.get (.string agentId)) := by
  induction entries generalizing place peers with
  | nil => rfl
  | cons entry entries ih =>
      rw [loadFrom]
      cases hkey : agentKey place entry with
      | none =>
          have hnull := agentKey_eq_none.mp hkey
          rw [lastEntry, List.takeWhile_cons_of_neg (by simp [hnull])]
          rfl
      | some key =>
          have hnull : isNull entry = false := by
            rw [← Bool.not_eq_true, ← agentKey_eq_none, hkey]
            exact Option.some_ne_none key
          dsimp only
          rw [ih, lastEntry_cons entries hnull, InsertionMap.get_set, Option.or_assoc]
          congr 1
          have hiff : .string agentId = key ↔ agentIdOf entry = some agentId := by
            rw [← agentKey_eq_string, hkey, Option.some_inj, eq_comm]
          by_cases hid : agentIdOf entry = some agentId
          · rw [if_pos (hiff.mpr hid), if_pos hid]
            rfl
          · rw [if_neg fun h => hid (hiff.mp h), if_neg hid]
            rfl

/-- The map holds entries under their keys, each without a repeated field. -/
def Keyed (peers : Peers) : Prop :=
  ∀ key entry, peers.get key = some entry →
    entry.KeyedOnce ∧ ∃ place, agentKey place entry = some key

theorem keyed_loadFrom (entries : List Json) (hentries : ∀ entry ∈ entries, entry.KeyedOnce)
    (place : Nat) (h : Keyed peers) : Keyed (loadFrom place entries peers) := by
  induction entries generalizing place peers with
  | nil => exact h
  | cons entry entries ih =>
      rw [loadFrom]
      cases hkey : agentKey place entry with
      | none => exact h
      | some key =>
          refine ih (fun e he => hentries e (List.mem_cons_of_mem _ he)) (place + 1) ?_
          intro key' entry' hget
          rw [InsertionMap.get_set] at hget
          split at hget
          · next heq =>
              obtain rfl := Option.some.inj hget
              rw [heq]
              exact ⟨hentries _ List.mem_cons_self, place, hkey⟩
          · exact h key' entry' hget

theorem keyed_empty : Keyed .empty := fun _ _ h => nomatch h

theorem keyed_load (file : Option String) : Keyed (load file) := by
  unfold load
  split
  · exact keyed_empty
  · next entries hentries =>
      obtain ⟨value, hparse, hiterate⟩ := Option.bind_eq_some_iff.mp hentries
      refine keyed_loadFrom entries ?_ 0 keyed_empty
      cases value with
      | array items =>
          obtain rfl := Option.some.inj hiterate
          obtain ⟨text, -, hparse⟩ := Option.bind_eq_some_iff.mp hparse
          exact Json.keyedOnce_of_parse hparse
      | string text =>
          obtain rfl := Option.some.inj hiterate
          intro entry hentry
          obtain ⟨c, -, rfl⟩ := List.mem_map.mp hentry
          trivial
      | _ => cases hiterate

theorem keyed_apply (h : Keyed peers) (call : Call) : Keyed (apply peers call) := by
  intro key entry hget
  cases call with
  | addPeer peer =>
      rw [apply, InsertionMap.get_set] at hget
      split at hget
      · next heq =>
          obtain rfl := Option.some.inj hget
          rw [heq]
          exact ⟨keyedOnce_json peer, 0, rfl⟩
      · exact h key entry hget
  | removePeer agentId => exact h key entry (InsertionMap.get_of_get_delete hget).2

/-- A pairing of the map is the entry of its agent. -/
theorem mem_pairings (h : Keyed peers) : peer ∈ pairings peers ↔
    ∃ entry, peers.get (.string peer.agentId) = some entry ∧ pairing entry = some peer := by
  rw [pairings, List.mem_filterMap]
  constructor
  · rintro ⟨entry, hmem, hpairing⟩
    obtain ⟨key, hget⟩ := InsertionMap.mem_values_iff.mp hmem
    obtain ⟨-, place, hkey⟩ := h key entry hget
    have hstring : agentKey place entry = some (.string peer.agentId) :=
      agentKey_eq_string.mpr (agentIdOf_of_pairing hpairing)
    obtain rfl := Option.some.inj (hkey.symm.trans hstring)
    exact ⟨entry, hget, hpairing⟩
  · rintro ⟨entry, hget, hpairing⟩
    exact ⟨entry, InsertionMap.mem_values_iff.mpr ⟨_, hget⟩, hpairing⟩

/-- A call leaves the pairings of the other agents. -/
theorem mem_pairings_apply (h : Keyed peers) {call : Call} (hne : peer.agentId ≠ call.agent) :
    peer ∈ pairings (apply peers call) ↔ peer ∈ pairings peers := by
  have hget : (apply peers call).get (.string peer.agentId) = peers.get (.string peer.agentId) := by
    cases call with
    | addPeer _ => exact InsertionMap.get_set_of_ne _ _ fun heq => hne (AgentKey.string.inj heq)
    | removePeer _ => exact InsertionMap.get_delete_of_ne _ fun heq => hne (AgentKey.string.inj heq)
  rw [mem_pairings (keyed_apply h call), mem_pairings h, hget]

/-! ## Writing -/

theorem entries_saved (peers : Peers) :
    entries (some (saved peers)) = peers.values.map Json.reread := by
  rw [entries, Option.bind_some, saved, Json.parse_stringify, Json.reread]
  exact Json.rereadItems_eq_map peers.values

/-- A file that was written holds the pairings of the map. -/
theorem filePairings_saved (h : Keyed peers) : filePairings (some (saved peers)) = pairings peers := by
  rw [filePairings, entries_saved, List.filterMap_map, pairings]
  refine List.filterMap_congr fun entry hmem => ?_
  obtain ⟨key, hget⟩ := InsertionMap.mem_values_iff.mp hmem
  exact pairing_reread (h key entry hget).1

/-- What `load` makes of a file with an array. -/
theorem get_load {file : Option String} (h : peer ∈ filePairings file) :
    (load file).get (.string agentId) = lastEntry (entries file) agentId := by
  unfold filePairings entries at h
  unfold load entries
  split at h
  · next items hparse =>
      rw [hparse, Option.bind_some]
      exact (get_loadFrom items 0 .empty).trans (Option.or_none)
  · cases h

theorem mem_of_lastEntry {items : List Json} (h : lastEntry items agentId = some entry) :
    entry ∈ items :=
  (List.takeWhile_prefix _).subset (List.mem_reverse.mp (List.mem_of_find?_eq_some h))

/-- Only what is in the file is loaded. -/
theorem filePairings_of_load {file : Option String} (h : peer ∈ pairings (load file)) :
    peer ∈ filePairings file := by
  obtain ⟨entry, hget, hpairing⟩ := (mem_pairings (keyed_load file)).mp h
  unfold load at hget
  split at hget
  · cases hget
  · next items hitems =>
      rw [get_loadFrom, InsertionMap.get_empty, Option.or_none] at hget
      have hmem := mem_of_lastEntry hget
      obtain ⟨value, hparse, hiterate⟩ := Option.bind_eq_some_iff.mp hitems
      cases value with
      | array items' =>
          obtain rfl := Option.some.inj hiterate
          refine List.mem_filterMap.mpr ⟨entry, ?_, hpairing⟩
          rwa [entries, hparse]
      | string text =>
          -- the characters of a text are no pairings
          obtain rfl := Option.some.inj hiterate
          obtain ⟨c, -, rfl⟩ := List.mem_map.mp hmem
          cases hpairing
      | _ => cases hiterate

/-! ## Written and loaded again -/

/-- The same pairings. -/
def Same (peers peers' : Peers) : Prop := ∀ peer, peer ∈ pairings peers ↔ peer ∈ pairings peers'

/-- An entry that does not become `null`, however often it is written and read; a number beyond the
range of a double does. -/
def Lasting (entry : Json) : Prop := ∀ n, isNull (Json.reread^[n] entry) = false

theorem Lasting.reread (h : Lasting entry) : Lasting entry.reread := fun n => h (n + 1)

theorem Lasting.isNull_reread (h : Lasting entry) : isNull entry.reread = false := h 1

theorem lasting_object (fields : List (String × Json)) : Lasting (.object fields) := by
  intro n
  induction n generalizing fields with
  | zero => rfl
  | succ n ih => exact ih _

def AllLasting (peers : Peers) : Prop := ∀ entry ∈ peers.values, Lasting entry

theorem allLasting_empty : AllLasting .empty := fun _ hmem => nomatch hmem

theorem allLasting_apply (h : AllLasting peers) (call : Call) : AllLasting (apply peers call) := by
  intro entry hmem
  obtain ⟨key, hget⟩ := InsertionMap.mem_values_iff.mp hmem
  cases call with
  | addPeer peer =>
      rw [apply, InsertionMap.get_set] at hget
      split at hget
      · obtain rfl := Option.some.inj hget
        exact lasting_object _
      · exact h entry (InsertionMap.mem_values_iff.mpr ⟨key, hget⟩)
  | removePeer agentId =>
      exact h entry (InsertionMap.mem_values_iff.mpr ⟨key, (InsertionMap.get_of_get_delete hget).2⟩)

/-- What is loaded was in the file. -/
theorem mem_values_loadFrom {entries : List Json}
    (h : entry ∈ (loadFrom place entries peers).values) : entry ∈ entries ∨ entry ∈ peers.values := by
  induction entries generalizing place peers with
  | nil => exact .inr h
  | cons first entries ih =>
      rw [loadFrom] at h
      cases hkey : agentKey place first with
      | none =>
          rw [hkey] at h
          exact .inr h
      | some key =>
          rw [hkey] at h
          rcases ih h with hmem | hmem
          · exact .inl (List.mem_cons_of_mem _ hmem)
          · obtain ⟨key', hget⟩ := InsertionMap.mem_values_iff.mp hmem
            rw [InsertionMap.get_set] at hget
            split at hget
            · obtain rfl := Option.some.inj hget
              exact .inl List.mem_cons_self
            · exact .inr (InsertionMap.mem_values_iff.mpr ⟨key', hget⟩)

/-- A file that was written is loaded entry by entry. -/
theorem load_saved (peers : Peers) :
    load (some (saved peers)) = loadFrom 0 (peers.values.map Json.reread) .empty := by
  have hentries := entries_saved peers
  rw [entries, Option.bind_some, saved, Json.parse_stringify, Json.reread] at hentries
  rw [load, Option.bind_some, saved, Json.parse_stringify, Json.reread, Option.bind_some, ← hentries]
  rfl

theorem allLasting_load_saved (h : AllLasting peers) : AllLasting (load (some (saved peers))) := by
  intro entry hmem
  rw [load_saved] at hmem
  rcases mem_values_loadFrom hmem with hmem | hmem
  · obtain ⟨e, he, rfl⟩ := List.mem_map.mp hmem
    exact (h e he).reread
  · cases hmem

theorem agentIdOf_reread (h : entry.KeyedOnce) : agentIdOf entry.reread = agentIdOf entry := by
  cases entry with
  | object fields => exact textField_reread h "agentId"
  | number x => cases x <;> rfl
  | _ => rfl

/-- A file that was written holds the entry of an agent once, and before any `null`. -/
theorem lastEntry_saved (h : Keyed peers) (hlasting : AllLasting peers)
    (hget : peers.get (.string agentId) = some entry) (hid : agentIdOf entry = some agentId) :
    lastEntry (peers.values.map Json.reread) agentId = some entry.reread := by
  have hall : (peers.values.map Json.reread).takeWhile (fun e => ! isNull e) =
      peers.values.map Json.reread := by
    refine List.takeWhile_eq_self_iff.mpr fun e he => ?_
    obtain ⟨e', he', rfl⟩ := List.mem_map.mp he
    simp [(hlasting e' he').isNull_reread]
  have honce : agentIdOf entry.reread = some agentId := by
    rw [agentIdOf_reread (h _ _ hget).1, hid]
  have hmem : entry.reread ∈ (peers.values.map Json.reread).reverse :=
    List.mem_reverse.mpr (List.mem_map_of_mem (InsertionMap.mem_values_iff.mpr ⟨_, hget⟩))
  rw [lastEntry, hall]
  cases hfound : (peers.values.map Json.reread).reverse.find?
      (fun e => agentIdOf e = some agentId) with
  | none => exact absurd (decide_eq_true honce) (List.find?_eq_none.mp hfound _ hmem)
  | some found =>
      -- an entry of the map that names the agent is the one under its key
      obtain ⟨e, he, rfl⟩ := List.mem_map.mp
        (List.mem_reverse.mp (List.mem_of_find?_eq_some hfound))
      obtain ⟨key, hkey⟩ := InsertionMap.mem_values_iff.mp he
      obtain ⟨honce', place, hplace⟩ := h key e hkey
      have hfind : agentIdOf e.reread = some agentId :=
        of_decide_eq_true (List.find?_some (p := fun e => decide (agentIdOf e = some agentId)) hfound)
      rw [agentIdOf_reread honce'] at hfind
      have hstring : agentKey place e = some (.string agentId) := agentKey_eq_string.mpr hfind
      obtain rfl := Option.some.inj (hplace.symm.trans hstring)
      rw [Option.some.inj (hkey.symm.trans hget)]

/-- What a map with lasting entries writes is loaded again. -/
theorem same_load_saved (h : Keyed peers) (hlasting : AllLasting peers) :
    Same (load (some (saved peers))) peers := by
  intro peer
  constructor
  · intro hload
    rw [← filePairings_saved h]
    exact filePairings_of_load hload
  · intro hmem
    obtain ⟨entry, hget, hpairing⟩ := (mem_pairings h).mp hmem
    have hfile : peer ∈ filePairings (some (saved peers)) := by rwa [filePairings_saved h]
    refine (mem_pairings (keyed_load _)).mpr ⟨entry.reread, ?_, ?_⟩
    · rw [get_load hfile, entries_saved]
      exact lastEntry_saved h hlasting hget (agentIdOf_of_pairing hpairing)
    · rw [pairing_reread (h _ _ hget).1, hpairing]

/-- The invariant: a start on the file loads the pairings of the map, and nothing that is loaded
becomes `null`. -/
structure Stored (s : State) : Prop where
  keyed : Keyed s.peers
  lasting : AllLasting s.peers
  lasting_load : AllLasting (load s.file)
  loads : Same (load s.file) s.peers

theorem written_eq {call : Call} {text : String} (h : written peers call = some text) :
    text = saved (apply peers call) := by
  cases call with
  | addPeer peer => exact (Option.some.inj h).symm
  | removePeer agentId =>
      rw [written] at h
      split at h
      · exact (Option.some.inj h).symm
      · cases h

/-- A call that writes nothing changes nothing. -/
theorem same_apply_of_written (h : Keyed peers) {call : Call} (hcall : written peers call = none) :
    Same peers (apply peers call) := by
  intro peer
  cases call with
  | addPeer _ => cases hcall
  | removePeer agentId =>
      rw [written] at hcall
      have habsent : peers.get (.string agentId) = none := by
        cases hget : peers.get (.string agentId) with
        | none => rfl
        | some entry => simp [InsertionMap.has, hget] at hcall
      by_cases hagent : peer.agentId = agentId
      · rw [mem_pairings h, mem_pairings (keyed_apply h _), hagent, habsent, apply,
          InsertionMap.get_delete_self]
      · exact (mem_pairings_apply h hagent).symm

theorem file_call_of_none {call : Call} (h : written s.peers call = none) :
    (s.call call).file = s.file := by
  rw [State.call, h]
  rfl

theorem file_call_of_some {call : Call} {text : String} (h : written s.peers call = some text) :
    (s.call call).file = some text := by
  rw [State.call, h]
  rfl

theorem Stored.call (h : Stored s) (call : Call) : Stored (s.call call) := by
  have hkeyed := keyed_apply h.keyed call
  have hlasting := allLasting_apply h.lasting call
  cases hcall : written s.peers call with
  | none =>
      have hfile := file_call_of_none hcall
      refine ⟨hkeyed, hlasting, hfile ▸ h.lasting_load, fun peer => ?_⟩
      rw [hfile]
      exact (h.loads peer).trans (same_apply_of_written h.keyed hcall peer)
  | some text =>
      obtain rfl := written_eq hcall
      have hfile := file_call_of_some hcall
      refine ⟨hkeyed, hlasting, ?_, ?_⟩
      · rw [hfile]
        exact allLasting_load_saved hlasting
      · rw [hfile]
        exact same_load_saved hkeyed hlasting

/-- A start on a file of the run. -/
theorem Stored.start {file : Option String} (h : AllLasting (load file)) : Stored (.start file) :=
  ⟨keyed_load file, h, h, fun _ => Iff.rfl⟩

/-- A text that is cut off loads nothing. -/
theorem load_cut {cut text : String} {call : Call} (hcall : written peers call = some text)
    (hcut : cut.toList <+: text.toList) (hne : cut ≠ text) : load (some cut) = .empty := by
  obtain rfl := written_eq hcall
  have hparse : Json.parse cut = none := by
    have hnone := Json.parse_stringify_cut 2 (apply peers call).values hcut
      fun heq => hne (String.toList_injective heq)
    rwa [String.ofList_toList] at hnone
  rw [load, Option.bind_some, hparse]
  rfl

theorem pairings_empty : pairings .empty = [] := rfl

/-- A write can be interrupted after the bracket. -/
theorem crashFile_bracket {call : Call} {text : String} (h : written s.peers call = some text) :
    s.CrashFile call (some "[") := by
  obtain rfl := written_eq h
  have htext : (saved (apply s.peers call)).toList =
      Json.render 2 0 (.array (apply s.peers call).values) := String.toList_ofList
  refine .inr ⟨_, h, "[", rfl, ?_⟩
  rw [htext]
  cases (apply s.peers call).values with
  | nil => exact ⟨[']'], rfl⟩
  | cons entry entries => exact ⟨_, rfl⟩

/-- What a crash leaves is the old file, the new one or one that loads nothing. -/
theorem State.CrashFile.cases {call : Call} {file : Option String} (h : s.CrashFile call file) :
    file = s.file ∨ file = (s.call call).file ∨ load file = .empty := by
  rcases h with rfl | ⟨text, hcall, cut, hfile, hcut⟩
  · exact .inl rfl
  · obtain rfl := Option.mem_def.mp hfile
    by_cases heq : cut = text
    · refine .inr (.inl ?_)
      rw [file_call_of_some (Option.mem_def.mp hcall), heq]
    · exact .inr (.inr (load_cut hcall hcut heq))

theorem stored_step (h : Stored s) {a : Action} (hs : step s a = some s') : Stored s' := by
  cases a with
  | call call =>
      obtain rfl := Option.some.inj hs
      exact h.call call
  | restart =>
      obtain rfl := Option.some.inj hs
      exact .start h.lasting_load
  | crash call file =>
      dsimp only [step] at hs
      split_ifs at hs with hfile
      obtain rfl := Option.some.inj hs
      rcases hfile.cases with rfl | rfl | hempty
      · exact .start h.lasting_load
      · exact .start (h.call call).lasting_load
      · refine .start ?_
        rw [hempty]
        exact allLasting_empty

theorem reachable_stored {content : Option String} (hcontent : AllLasting (load content))
    (h : (pairingStore content).Reachable s) : Stored s := by
  have hinit : Stored (pairingStore content).init := .start hcontent
  exact h.invariant hinit fun _ _ _ hstored hs => stored_step hstored hs

/-- A call that removes the only agent of the pairings. -/
def RemovesAll (peers : Peers) : Call → Prop
  | .addPeer _ => False
  | .removePeer agentId => ∀ peer ∈ pairings peers, peer.agentId = agentId

theorem pairings_apply_eq_nil (h : Keyed peers) (call : Call) :
    pairings (apply peers call) = [] ↔ RemovesAll peers call := by
  rw [List.eq_nil_iff_forall_not_mem]
  cases call with
  | addPeer peer =>
      rw [RemovesAll, iff_false]
      intro hnil
      refine hnil peer ((mem_pairings (keyed_apply h _)).mpr ⟨peer.json, ?_, pairing_json peer⟩)
      rw [apply, InsertionMap.get_set_self]
  | removePeer agentId =>
      constructor
      · intro hnil peer hpeer
        by_contra hne
        exact hnil peer ((mem_pairings_apply h hne).mpr hpeer)
      · intro hall peer hpeer
        by_cases hagent : peer.agentId = agentId
        · rw [mem_pairings (keyed_apply h _), hagent, apply, InsertionMap.get_delete_self] at hpeer
          obtain ⟨entry, hget, -⟩ := hpeer
          cases hget
        · exact hagent (hall peer ((mem_pairings_apply h hagent).mp hpeer))

/-- After a crash the old or the new pairings are loaded exactly if the file holds the old or the new
content, or there are no old pairings or the call removes them all. -/
theorem loads_after_crash (h : Stored s) {call : Call} {file : Option String}
    (hfile : s.CrashFile call file) :
    (Same (load file) s.peers ∨ Same (load file) (s.call call).peers) ↔
      file = s.file ∨ file = (s.call call).file ∨ pairings s.peers = [] ∨
        RemovesAll s.peers call := by
  have hnil : ∀ {peers : Peers}, load file = .empty →
      (Same (load file) peers ↔ pairings peers = []) := by
    intro peers hempty
    rw [Same, hempty, pairings_empty, List.eq_nil_iff_forall_not_mem]
    simp only [List.not_mem_nil, false_iff]
  rcases hfile.cases with rfl | rfl | hempty
  · exact iff_of_true (.inl h.loads) (.inl rfl)
  · exact iff_of_true (.inr (h.call call).loads) (.inr (.inl rfl))
  · rw [hnil hempty, hnil hempty, ← pairings_apply_eq_nil h.keyed]
    constructor
    · rintro (hold | hnew)
      · exact .inr (.inr (.inl hold))
      · exact .inr (.inr (.inr hnew))
    · rintro (rfl | rfl | hold | hnew)
      · exact .inl ((hnil hempty).mp h.loads)
      · exact .inr ((hnil hempty).mp (h.call call).loads)
      · exact .inl hold
      · exact .inr hnew

/-! ## A daemon that starts on any content -/

/-- No call of a run removes the pairing of another agent from the file. -/
def KeepsOthers (content : Option String) : Prop :=
  ∀ (calls : List Call) (call : Call),
    ∀ peer ∈ filePairings (calls.foldl State.call (.start content)).file, peer.agentId ≠ call.agent →
      peer ∈ filePairings ((calls.foldl State.call (.start content)).call call).file

/-- Of the agent of each pairing, the last entry before the first `null` is the pairing. -/
def AllLast (content : Option String) : Prop :=
  ∀ peer ∈ filePairings content,
    (lastEntry (entries content) peer.agentId).bind pairing = some peer

/-- What is in the file is in the map. -/
structure Held (s : State) : Prop where
  keyed : Keyed s.peers
  held : ∀ peer ∈ filePairings s.file, peer ∈ pairings s.peers

theorem mem_pairings_load {file : Option String} (h : peer ∈ filePairings file) :
    peer ∈ pairings (load file) ↔
      (lastEntry (entries file) peer.agentId).bind pairing = some peer := by
  rw [mem_pairings (keyed_load file), get_load h, Option.bind_eq_some_iff]

theorem Held.call (h : Held s) (call : Call) : Held (s.call call) := by
  have hkeyed := keyed_apply h.keyed call
  refine ⟨hkeyed, fun peer hpeer => ?_⟩
  cases hcall : written s.peers call with
  | none =>
      rw [file_call_of_none hcall] at hpeer
      exact (same_apply_of_written h.keyed hcall peer).mp (h.held peer hpeer)
  | some text =>
      obtain rfl := written_eq hcall
      rwa [file_call_of_some hcall, filePairings_saved hkeyed] at hpeer

/-- A call writes the pairings of the map, except that of its agent. -/
theorem Held.keeps (h : Held s) {call : Call} (hpeer : peer ∈ filePairings s.file)
    (hne : peer.agentId ≠ call.agent) : peer ∈ filePairings (s.call call).file := by
  cases hcall : written s.peers call with
  | none => rwa [file_call_of_none hcall]
  | some text =>
      obtain rfl := written_eq hcall
      rw [file_call_of_some hcall, filePairings_saved (keyed_apply h.keyed call)]
      exact (mem_pairings_apply h.keyed hne).mpr (h.held peer hpeer)

theorem keepsOthers_iff (content : Option String) : KeepsOthers content ↔ AllLast content := by
  constructor
  · intro hkeeps peer hpeer
    -- the first call adds some other agent
    let other : PairedPeer := { peer with agentId := peer.agentId ++ "x" }
    have hne : peer.agentId ≠ other.agentId := by
      intro heq
      have hlength := congrArg String.length heq
      simp [other] at hlength
    have hfile := hkeeps [] (.addPeer other) peer hpeer hne
    have hwritten : written (load content) (.addPeer other) =
        some (saved (apply (load content) (.addPeer other))) := rfl
    rw [List.foldl_nil, file_call_of_some hwritten, filePairings_saved (keyed_apply (keyed_load _) _),
      mem_pairings_apply (keyed_load _) hne] at hfile
    exact (mem_pairings_load hpeer).mp hfile
  · intro hlast calls call
    have hstart : Held (.start content) :=
      ⟨keyed_load content, fun peer hpeer => (mem_pairings_load hpeer).mpr (hlast peer hpeer)⟩
    have hrun : ∀ {s : State}, Held s → Held (calls.foldl State.call s) := by
      induction calls with
      | nil => exact id
      | cons first calls ih => exact fun h => ih (h.call first)
    exact fun peer hpeer hne => (hrun hstart).keeps hpeer hne

/-- A file that was written keeps its pairings. -/
theorem allLast_saved (h : Keyed peers) (hlasting : AllLasting peers) :
    AllLast (some (saved peers)) := by
  intro peer hpeer
  refine (mem_pairings_load hpeer).mp ((same_load_saved h hlasting peer).mpr ?_)
  rwa [filePairings_saved h] at hpeer

/-- After a crash in a call the pairings before or after it are loaded exactly if the file holds the
old or the new content, or there are none before or none after; and all calls leave the pairings of
other agents in the file exactly if each is the last entry of its agent before the first `null`. -/
theorem pairings_durable (content : Option String) :
    (AllLasting (State.start content).peers →
      ∀ s, (pairingStore content).Reachable s → ∀ call file, s.CrashFile call file →
        ((Same (State.start file).peers s.peers ∨
            Same (State.start file).peers (s.call call).peers) ↔
          file = s.file ∨ file = (s.call call).file ∨ pairings s.peers = [] ∨
            RemovesAll s.peers call)) ∧
      (KeepsOthers content ↔ AllLast content) :=
  ⟨fun hcontent _ hs _ _ hfile => loads_after_crash (reachable_stored hcontent hs) hfile,
    keepsOthers_iff content⟩

def samplePeer (agentId : String) : PairedPeer := ⟨agentId, "k", "c", "f", "", "h"⟩

/-- A daemon with one pairing. -/
def sampleState : State := (State.start none).call (.addPeer (samplePeer "a"))

theorem reachable_sampleState : (pairingStore none).Reachable sampleState := by
  have hrun : (pairingStore none).runFrom (pairingStore none).init
      [.call (.addPeer (samplePeer "a"))] = some sampleState := rfl
  exact Machine.reachable_of_runFrom hrun

/-- The second call is interrupted before its write; and the calls after a start on the file keep the
pairing. -/
theorem pairings_durable_kept :
    (Same (State.start sampleState.file).peers sampleState.peers ∨
        Same (State.start sampleState.file).peers
          (sampleState.call (.addPeer (samplePeer "b"))).peers) ∧
      pairings sampleState.peers = [samplePeer "a"] ∧
      KeepsOthers sampleState.file := by
  have hnone : AllLasting (load none) := allLasting_empty
  have hstored := reachable_stored hnone reachable_sampleState
  have hlast : AllLast sampleState.file := allLast_saved hstored.keyed hstored.lasting
  refine ⟨?_, rfl, (pairings_durable _).2.mpr hlast⟩
  exact ((pairings_durable none).1 hnone sampleState reachable_sampleState
    (.addPeer (samplePeer "b")) sampleState.file (.inl rfl)).mpr (.inl rfl)

/-- A file with an entry `null` before a pairing. -/
def nullFirst : Option String := some (Json.stringify 0 (.array [.null, (samplePeer "a").json]))

/-- The second write is cut off after its first character; and an entry `null` stands before a
pairing. -/
theorem pairings_lost :
    (∃ s, (pairingStore none).Reachable s ∧ s.CrashFile (.addPeer (samplePeer "b")) (some "[") ∧
        ¬ (Same (State.start (some "[")).peers s.peers ∨
          Same (State.start (some "[")).peers (s.call (.addPeer (samplePeer "b"))).peers)) ∧
      ¬ KeepsOthers nullFirst := by
  have hempty : pairings (State.start (some "[")).peers = [] := by decide +kernel
  have hold : samplePeer "a" ∈ pairings sampleState.peers := by decide +kernel
  have hnew : samplePeer "a" ∈ pairings (sampleState.call (.addPeer (samplePeer "b"))).peers := by
    decide +kernel
  refine ⟨⟨sampleState, reachable_sampleState, crashFile_bracket rfl, ?_⟩, fun hkeeps => ?_⟩
  · rintro (hsame | hsame)
    · have hmem := (hsame _).mpr hold
      rw [hempty] at hmem
      cases hmem
    · have hmem := (hsame _).mpr hnew
      rw [hempty] at hmem
      cases hmem
  · have hentries : entries nullFirst = [.null, (samplePeer "a").json.reread] := by
      rw [nullFirst, entries, Option.bind_some, Json.parse_stringify]
      rfl
    have hmem : samplePeer "a" ∈ filePairings nullFirst := by
      rw [filePairings, hentries]
      decide
    have hfound := (keepsOthers_iff nullFirst).mp hkeeps _ hmem
    rw [hentries] at hfound
    cases hfound

end ThinkLocal.PairingFile
