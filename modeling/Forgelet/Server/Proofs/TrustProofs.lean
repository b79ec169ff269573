import Forgelet.Server.Trust

/-!
# Proofs: which pull requests are trusted

`trustFor` looks at the flag of the head repository alone. It trusts only heads inside of the repository of the pull
request exactly where those outside carry the flag.
-/

namespace Forgelet.Server

open Bytes (ofString)
open Json (GoType mismatch_struct_mono)
open Webhook (PRPayload prPayload pullPath prPayloadType repoFields)

/-- What does not fit the type of `trustFor` does not fit the one of `DecodePull`. -/
theorem mismatch_trustPayloadType {j} (h : trustPayloadType.mismatch j) : prPayloadType.mismatch j := by
  have hrepo : ∀ j, (GoType.struct [(ofString "fork", .bool)]).mismatch j →
      (GoType.struct ((ofString "fork", .bool) :: repoFields)).mismatch j := by
    refine mismatch_struct_mono fun f hf => ⟨f, ?_, rfl, fun _ hj => hj⟩
    rw [List.mem_singleton.mp hf]
    exact (.head _)
  have hhead : ∀ j, (GoType.struct [(ofString "repo", .struct [(ofString "fork", .bool)])]).mismatch j →
      (GoType.struct [(ofString "ref", .string), (ofString "sha", .string),
        (ofString "repo", .struct ((ofString "fork", .bool) :: repoFields))]).mismatch j := by
    refine mismatch_struct_mono fun f hf => ⟨_, .tail _ (.tail _ (.head _)), ?_⟩
    rw [List.mem_singleton.mp hf]
    exact ⟨rfl, hrepo⟩
  have hpull : ∀ j, (GoType.struct [(ofString "head", .struct
      [(ofString "repo", .struct [(ofString "fork", .bool)])])]).mismatch j →
      (GoType.struct [(ofString "head", .struct [(ofString "ref", .string), (ofString "sha", .string),
        (ofString "repo", .struct ((ofString "fork", .bool) :: repoFields))]),
      (ofString "base", .struct [(ofString "ref", .string), (ofString "repo", .struct repoFields)])]).mismatch j =
        true := by
    refine mismatch_struct_mono fun f hf => ⟨_, (.head _), ?_⟩
    rw [List.mem_singleton.mp hf]
    exact ⟨rfl, hhead⟩
  refine mismatch_struct_mono
    (fun f hf => ⟨_, .tail _ (.tail _ (.head _)), ?_⟩) j h
  rw [List.mem_singleton.mp hf]
  exact ⟨rfl, hpull⟩

variable {p : PRPayload} {opts : Options}

/-- `trustFor` and `DecodePull` read the same flag. -/
theorem headForkOf_eq {payload : Payload} (h : prPayload payload = some p) : headForkOf payload = some p.headFork := by
  unfold prPayload at h
  unfold headForkOf
  cases htree : Json.tree payload with
  | none =>
    rw [htree] at h
    cases h
  | some j =>
    rw [htree] at h
    dsimp only at h ⊢
    split_ifs at h with hmismatch
    rw [if_neg (mt mismatch_trustPayloadType hmismatch), ← Option.some.inj h]

theorem trustFor_flag {d} (hopts : opts.headFork = headForkOf) (hpull : d.event.name = "pull_request") :
    trustFor opts d = if headForkOf d.payload = some true then .fork else .sameRepo := by
  unfold trustFor
  rw [if_neg (not_not.mpr hpull), hopts]
  rcases headForkOf d.payload with _ | _ | _ <;> rfl

theorem trustFor_eq {d} (hopts : opts.headFork = headForkOf) (hpull : d.event.name = "pull_request")
    (hp : prPayload d.payload = some p) : trustFor opts d = if p.headFork then .fork else .sameRepo := by
  rw [trustFor_flag hopts hpull, headForkOf_eq hp]
  cases p.headFork <;> rfl

/-- Only pull requests from the repository they are made to are trusted as such, exactly if the payload marks all
others as forks. -/
theorem trustFor_pull_request_iff {opts : Options} {d : Delivery} (hopts : opts.headFork = headForkOf)
    (hpull : d.event.name = "pull_request") : ((trustFor opts d = .sameRepo → FromSameRepository d.payload) ∧
      (¬FromSameRepository d.payload → trustFor opts d = .fork)) ↔ MarksForks d.payload := by
  rw [trustFor_flag hopts hpull]
  by_cases hflag : headForkOf d.payload = some true
  · rw [if_pos hflag]
    exact ⟨fun _ => .inr hflag, fun _ => ⟨nofun, fun _ => rfl⟩⟩
  · rw [if_neg hflag]
    constructor
    · exact fun h => .inl (h.1 rfl)
    · intro hmarks
      have hsame := hmarks.resolve_right hflag
      exact ⟨fun _ => hsame, fun hnot => absurd hsame hnot⟩

/-! ## Payloads -/

theorem fromSameRepository_iff {payload : Payload} (h : prPayload payload = some p) :
    FromSameRepository payload ↔ SameRepository p := by
  constructor
  · rintro ⟨p', hp', hsame⟩
    rw [Option.mem_unique h hp']
    exact hsame
  · exact fun hsame => ⟨p, h, hsame⟩

/-- The repository `owner/r` in a payload, with more fields. -/
def repoText (owner more : String) : Payload :=
  ofString "\x7b\"name\":\"r\",\"owner\":\x7b\"login\":\"" ++ ofString owner ++ ofString "\"\x7d" ++ ofString more ++
    ofString "\x7d"

/-- A payload of a pull request to the repository `o/r`. -/
def pullText (head : Payload) : Payload :=
  ofString "\x7b\"pull_request\":\x7b\"head\":\x7b\"repo\":" ++ head ++ ofString "\x7d,\"base\":\x7b\"repo\":" ++
    repoText "o" "" ++ ofString "\x7d\x7d\x7d"

/-- A pull request from a fork. -/
def forkText : Payload := pullText (repoText "e" ",\"fork\":true")

/-- A pull request from another repository that is no fork. -/
def otherText : Payload := pullText (repoText "e" ",\"fork\":false")

/-- A pull request whose repository is gone. -/
def goneText : Payload := pullText (ofString "null")

/-- What it says, as far as repositories are concerned. -/
def pullOf (owner name : String) (fork : Bool) : PRPayload :=
  ⟨[], [], [], fork, ofString name, ofString owner, [], ofString "r", ofString "o"⟩

/-- The delivery of a pull request. -/
def requestDelivery (payload : Payload) : Delivery where
  key := ⟨"github", "d"⟩
  event := ⟨"github", "pull_request", "d", ⟨"github", "o", "r"⟩, "refs/heads/f", "c0ffee", "o"⟩
  payload := payload

/-- A server that reads the flag of the payload. -/
def pullServer : Options where
  wiring := Wiring.unary
  src := ⟨"", fun _ => .ok [], none, none, fun _ _ => .error (.errorf "no workflow"), fun _ => ""⟩
  headFork := headForkOf

/-- A pull request from a fork. -/
theorem trustFor_fork : trustFor pullServer (requestDelivery forkText) = .fork := by
  have hp : prPayload forkText = some (pullOf "e" "r" true) := by decide +kernel
  refine ((trustFor_pull_request_iff (d := requestDelivery forkText) rfl rfl).mpr (.inr (headForkOf_eq hp))).2 ?_
  exact mt (fromSameRepository_iff hp).mp (by decide)

/-- Pull requests from a repository that is no fork, one that is gone, and a payload that ends early. -/
theorem trustFor_not_fork : (prPayload otherText = some (pullOf "e" "r" false) ∧ ¬FromSameRepository otherText ∧
        trustFor pullServer (requestDelivery otherText) = .sameRepo) ∧
      (prPayload goneText = some (pullOf "" "" false) ∧ ¬FromSameRepository goneText ∧
        trustFor pullServer (requestDelivery goneText) = .sameRepo) ∧
      prPayload (ofString "\x7b") = none ∧ trustFor pullServer (requestDelivery (ofString "\x7b")) = .sameRepo := by
  have hother : prPayload otherText = some (pullOf "e" "r" false) := by decide +kernel
  have hgone : prPayload goneText = some (pullOf "" "" false) := by decide +kernel
  refine ⟨⟨hother, mt (fromSameRepository_iff hother).mp (by decide), ?_⟩,
    ⟨hgone, mt (fromSameRepository_iff hgone).mp (by decide), ?_⟩, by decide +kernel⟩
  · exact trustFor_eq (d := requestDelivery otherText) rfl rfl hother
  · exact trustFor_eq (d := requestDelivery goneText) rfl rfl hgone

end Forgelet.Server
