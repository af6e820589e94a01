import DistributedCluster.Lib.Url
import DistributedCluster.Storage.Read
/-!
# Keys in the URL of a fetch

`fetch_remote` puts the key into the URL as it is. The node at the other end looks
up what its router makes of that, which is the same key only if the key is plain.
-/

namespace DistributedMap

open Async

section Splicing

variable {V : Type} [Json V] {cfg : MapConfig} {view : NodeId → MembershipService} {n m : NodeId}

/-- The configuration where `/internal/get/:key` of the map is found below `base`; no
other route of the server hands a key to it. -/
def below (cfg : MapConfig) (base : Url.BasePath) (elsewhere : List Url.Bytes → StatusCode) : MapConfig :=
  { cfg with route := Url.routed base elsewhere }

theorem urlSafe_below_iff (cfg : MapConfig) (base : Url.BasePath) (elsewhere : List Url.Bytes → StatusCode) (key : String) :
    UrlSafe (below cfg base elsewhere) key ↔ Url.Plain (Url.bytes key) := by
  rw [← Url.routed_iff base elsewhere key]
  constructor
  · rintro ⟨text, hroute, hparse⟩
    cases hparse
    exact hroute
  · exact fun hroute => ⟨key, hroute, rfl⟩

/-- What a fetch of `key` from `m` by `n` yields is what `m` has, whatever the nodes store. -/
def FetchAgrees (V : Type) [Json V] (cfg : MapConfig) (view : NodeId → MembershipService) (n m : NodeId) (key : String) :
    Prop :=
  ∀ (s : MapCluster String V) (r : Result (Option V)) (x : Option V) (s' s'' : MapCluster String V), s.view = view →
    Runs (MapSem cfg .reliable) SameData (fetch_remote cfg n m key) s r s' →
    Runs (MapSem cfg .reliable) SameData (get_local cfg m key) s x s'' → r = .ok x

theorem fetch_agrees_of_urlSafe {key : String} (hreach : Addressed cfg view n m) (hsafe : UrlSafe cfg key) :
    FetchAgrees V cfg view n m key := by
  rintro s r x s' s'' rfl hfetch hlocal
  obtain ⟨hr | ⟨hnet, -⟩, -⟩ := (reads_fetch_remote hreach key).runs (refl s) hfetch
  · obtain ⟨rfl, -⟩ := (reads_lookup (cfg.partition_of key) key).runs (refl s) hlocal
    obtain ⟨text, hroute, hparse⟩ := hsafe
    have hresponse : get_response cfg s m (Key.to_string key) = value_response (s.stored m (cfg.partition_of key) key) := by
      simp only [get_response, hroute, hparse]
    rw [hr, hresponse]
    cases s.stored m (cfg.partition_of key) key with
    | none => rfl
    | some value =>
      obtain ⟨json, hto, hfrom⟩ := Json.round_trip value
      simp [value_response, hto, hfrom, read_response, StatusCode.is_success]
  · exact absurd hnet Network.reliable_ne_lossy

/-- Another key is looked up, or none, where `m` has nothing but `key`. -/
theorem urlSafe_of_fetch_agrees [Nonempty V] {key : String} (hreach : Addressed cfg view n m)
    (h : FetchAgrees V cfg view n m key) : UrlSafe cfg key := by
  by_contra hunsafe
  obtain ⟨value⟩ := ‹Nonempty V›
  let s : MapCluster String V := (MapCluster.empty view).store_local m (cfg.partition_of key) key value
  obtain ⟨r, s', hfetch⟩ := Runs.total (R := SameData) (MapSem_total cfg .reliable) (fetch_remote cfg n m key) s
  obtain ⟨x, s'', hlocal⟩ := Runs.total (R := SameData) (MapSem_total cfg .reliable) (get_local cfg m key) s
  have hx : x = some value := by
    obtain ⟨hx, -⟩ := (reads_lookup (cfg.partition_of key) key).runs (refl s) hlocal
    rw [hx, MapCluster.stored_store_local, if_pos ⟨rfl, rfl, rfl⟩]
  have hnone : answer cfg s key m = none := answer_of_not_urlSafe hunsafe fun k hk => by
    rw [MapCluster.stored_store_local, if_neg fun hsame => hk hsame.2.2, MapCluster.stored_empty]
  obtain ⟨hr | ⟨hnet, -⟩, -⟩ := (reads_fetch_remote hreach key).runs (refl s) hfetch
  · rw [answer, ← hr, h s r x s' s'' rfl hfetch hlocal, hx] at hnone
    cases hnone
  · exact absurd hnet Network.reliable_ne_lossy

/-- A fetch agrees with the local lookup at the other node if and only if the key is plain. -/
theorem fetch_agrees_iff [Nonempty V] (base : Url.BasePath) (elsewhere : List Url.Bytes → StatusCode)
    (hreach : Addressed cfg view n m) (key : String) :
    FetchAgrees V (below cfg base elsewhere) view n m key ↔ Url.Plain (Url.bytes key) := by
  have hreach' : Addressed (below cfg base elsewhere) view n m := hreach
  rw [← urlSafe_below_iff cfg base elsewhere]
  exact ⟨urlSafe_of_fetch_agrees hreach', fetch_agrees_of_urlSafe hreach'⟩

end Splicing

section Example

open CompactJson

/-- `/index/internal/get` -/
def index_base : Url.BasePath where
  segments := ["index", "internal", "get"].map Url.bytes
  literal := by decide +kernel

def spliced_cfg : MapConfig := below pair_cfg index_base fun _ => .NOT_FOUND

theorem reaches_pair : Addressed pair_cfg (demo_view pair) node_b node_a :=
  (agreed_demo 2 (by decide) (by decide) : Agreed pair_cfg pair (demo_view pair)).reach node_b (by decide) node_a (by decide)

theorem fetch_agrees_question_mark :
    FetchAgrees Bool spliced_cfg (demo_view pair) node_b node_a "a?b" ↔ Url.Plain (Url.bytes "a?b") :=
  fetch_agrees_iff index_base (fun _ => .NOT_FOUND) reaches_pair "a?b"

/-- Node a has a value for `"a"` and another one for `"a?b"`. -/
def two_keys : MapCluster String Bool :=
  ((MapCluster.empty (demo_view pair)).store_local node_a (spliced_cfg.partition_of "a") "a" true).store_local node_a
    (spliced_cfg.partition_of "a?b") "a?b" false

/-- The question mark ends the path: the fetch of `"a?b"` yields the value of `"a"`. -/
theorem fetches_another_value :
    ¬ ∀ (cfg : MapConfig) (base : Url.BasePath) (elsewhere : List Url.Bytes → StatusCode)
      (view : NodeId → MembershipService) (n m : NodeId) (key : String), Addressed cfg view n m →
        FetchAgrees Bool (below cfg base elsewhere) view n m key := by
  intro h
  have hagrees : FetchAgrees Bool spliced_cfg (demo_view pair) node_b node_a "a?b" :=
    h pair_cfg index_base (fun _ => .NOT_FOUND) (demo_view pair) node_b node_a "a?b" reaches_pair
  obtain ⟨r, s', hfetch⟩ :=
    Runs.total (R := SameData) (MapSem_total spliced_cfg .reliable) (fetch_remote spliced_cfg node_b node_a "a?b") two_keys
  obtain ⟨x, s'', hlocal⟩ :=
    Runs.total (R := SameData) (MapSem_total spliced_cfg .reliable) (get_local spliced_cfg node_a "a?b") two_keys
  have hroute : spliced_cfg.route "a?b" = .ok "a" := by
    have hpath : Url.bound index_base.segments (Url.parse_path (Url.splice index_base.segments (Url.bytes "a?b"))) =
        some (Url.bytes "a") := by decide +kernel
    have hdecode : Url.decode (Url.bytes "a") = .ok "a" := Url.decode_eq_ok.2 (by decide +kernel)
    change Url.routed index_base (fun _ => .NOT_FOUND) "a?b" = _
    simp only [Url.routed, hpath, hdecode]
  have hother : two_keys.stored node_a (spliced_cfg.partition_of "a") "a" = some true := by
    rw [two_keys, MapCluster.stored_store_local, if_neg (by decide), MapCluster.stored_store_local, if_pos ⟨rfl, rfl, rfl⟩]
  have hresponse : get_response spliced_cfg two_keys node_a "a?b" = value_response (some true) := by
    simp only [get_response, hroute]
    exact congrArg value_response hother
  have hr : fetched r = some true := by
    obtain ⟨hr | ⟨hnet, -⟩, -⟩ := (reads_fetch_remote reaches_pair "a?b").runs (refl two_keys) hfetch
    · rw [hr]
      exact (congrArg (fun response => fetched (read_response response)) hresponse).trans (by decide +kernel)
    · exact absurd hnet Network.reliable_ne_lossy
  have hx : x = some false := by
    obtain ⟨hx, -⟩ := (reads_lookup (spliced_cfg.partition_of "a?b") "a?b").runs (refl two_keys) hlocal
    rw [hx, two_keys, MapCluster.stored_store_local, if_pos ⟨rfl, rfl, rfl⟩]
  rw [hagrees two_keys r x s' s'' rfl hfetch hlocal, hx] at hr
  cases hr

end Example

end DistributedMap
