/-
The experiment: votes encoded, signed, stored and tallied.

`createVotes.main` signs the number that encodes a vote, not an encryption of it,
so what the tally decrypts is a product of encodings, a power of `voteEncoding`.  It
has no factor in common with the product of two large primes, so the tally does
reveal something; `pipeline_yields_iff` says when that is the sum.
-/
import Evoting.Proofs.Tally
import Evoting.Proofs.Votes

namespace Evoting

open Election

/-- Large primes do not divide the encoding. -/
theorem coprime_voteEncoding {p : ℕ} (hp : p.Prime) (hlarge : 2 ^ 511 ≤ p) :
    p.Coprime voteEncoding := by
  have hsmall : ∀ m : ℕ, 0 < m → m < 2 ^ 511 → p.Coprime m := by
    intro m hm hlt
    refine (Nat.Prime.coprime_iff_not_dvd hp).mpr fun hdvd => ?_
    exact absurd (Nat.le_of_dvd hm hdvd) (not_le.mpr (hlt.trans_le hlarge))
  have hdigits := hsmall voteDigits (by decide +kernel) (by decide +kernel)
  have hbyte := hsmall 256 (by decide) (by decide +kernel)
  unfold voteEncoding
  exact hdigits.mul_right (hbyte.pow_right 114)

/-! ### The tally of a run of votes -/

section Pipeline

variable {providers : Providers} {k : KeyPair} {p q : ℕ} {w w' : World}
  {casts : List (Int × Bool)} {votes : List JString}

/-- The encoding has no factor in common with a modulus of two large primes. -/
theorem isCoprime_voteEncoding (hk : k.Valid p q) (hp : 2 ^ 511 ≤ p) (hq : 2 ^ 511 ≤ q) :
    IsCoprime (voteEncoding : Int) k.publicKey.n := by
  rw [hk.n_eq]
  refine (IsCoprime.mul_left ?_ ?_).symm <;> rw [Nat.isCoprime_iff_coprime]
  · exact coprime_voteEncoding hk.prime_left hp
  · exact coprime_voteEncoding hk.prime_right hq

/-- **What the tally reveals**: what a power of the encoding decrypts to. -/
theorem pipeline_reveals (hk : k.Valid p q) (hp : 2 ^ 511 ≤ p) (hq : 2 ^ 511 ≤ q)
    (hbound : k.upperBound = none) (hkey : w.electionKeyPair = some k)
    (hempty : w.database = some []) (hne : votes ≠ [])
    (hvotes : ∀ vote ∈ votes, NamesCandidates vote)
    (hcasts : votes.mapM encodeVote = .ok (casts.map Prod.fst)) (h : Casts providers w casts w') :
    casts.map Prod.fst = List.replicate votes.length (voteEncoding : Int) ∧
      ∃ total, tallyVotes (Election.new k w') = some total ∧
        revealResult (Election.new k w') total
          = .ok (k.plaintext (voteEncoding ^ votes.length)) := by
  have hmessages := Except.ok.inj (hcasts.symm.trans (mapM_encodeVote hvotes))
  have hcasts_ne : casts ≠ [] := by
    rintro rfl
    rw [List.map_nil, eq_comm, List.replicate_eq_nil_iff, List.length_eq_zero_iff] at hmessages
    exact hne hmessages
  obtain ⟨hkey', total, htotal, hmod⟩ := tallyVotes_casts hk hkey hempty hcasts_ne h
  rw [hmessages, List.prod_replicate] at hmod
  have hnew : Election.new k w' = w' := by rw [Election.new, ← hkey']
  have hcop := (isCoprime_voteEncoding hk hp hq).pow_left (m := votes.length)
  refine ⟨hmessages, total, by rw [hnew, htotal], ?_⟩
  rw [hnew, revealResult, hkey', deref, ok_bind,
    hk.decrypt_of_unbounded hbound (hk.isCoprime_of_modEq hmod hcop), hk.plaintext_congr hmod]

/-- **When the experiment counts**: the tally reveals the sum of the encodings exactly when
their product happens to be an encryption of it. -/
theorem pipeline_yields_iff (hk : k.Valid p q) (hp : 2 ^ 511 ≤ p) (hq : 2 ^ 511 ≤ q)
    (hbound : k.upperBound = none) (hkey : w.electionKeyPair = some k)
    (hempty : w.database = some []) (hne : votes ≠ [])
    (hvotes : ∀ vote ∈ votes, NamesCandidates vote)
    (hcasts : votes.mapM encodeVote = .ok (casts.map Prod.fst)) (h : Casts providers w casts w') :
    (∃ total, tallyVotes (Election.new k w') = some total ∧
        revealResult (Election.new k w') total
          = .ok ((casts.map Prod.fst).sum % k.publicKey.n)) ↔
      ∃ r : Int, IsCoprime r k.publicKey.n ∧
        (voteEncoding : Int) ^ votes.length
          ≡ k.publicKey.g ^ (voteEncoding * votes.length) * r ^ k.publicKey.n.toNat
            [ZMOD k.publicKey.nSquared] := by
  obtain ⟨hmessages, total, htotal, hreveal⟩ :=
    pipeline_reveals hk hp hq hbound hkey hempty hne hvotes hcasts h
  have hsum : (casts.map Prod.fst).sum = (voteEncoding * votes.length : ℕ) := by
    rw [hmessages, List.sum_replicate, nsmul_eq_mul]
    push_cast
    ring
  rw [htotal, hsum, ← hk.plaintext_modEq_iff (isCoprime_voteEncoding hk hp hq).pow_left]
  constructor
  · rintro ⟨t, ht, hresult⟩
    obtain rfl := Option.some.inj ht
    rw [hreveal] at hresult
    rw [Except.ok.inj hresult]
    exact Int.mod_modEq _ _
  · intro hm
    refine ⟨total, rfl, ?_⟩
    rw [hreveal, ← hm.eq, KeyPair.plaintext, Int.emod_emod_of_dvd _ (dvd_refl k.publicKey.n)]

end Pipeline

/-! ### One vote -/

/-- Two primes of 512 bits; the predecessor of each has no factor but 2 and 3. -/
def pipelineP : ℕ := 2 ^ 475 * 3 ^ 23 + 1

def pipelineQ : ℕ := 2 ^ 399 * 3 ^ 71 + 1

/-- Their key pair, with the generator `n + 1`. -/
def KeyPair.pipeline : KeyPair :=
  let n : ℕ := pipelineP * pipelineQ
  let lambda := Nat.lcm (pipelineP - 1) (pipelineQ - 1)
  ⟨⟨lambda, Residue.powMod n 1024 lambda ((pipelineP - 1) * (pipelineQ - 1) - 1)⟩,
    ⟨1024, n, n * n, n + 1⟩, none⟩

theorem prime_pipeline : pipelineP.Prime ∧ pipelineQ.Prime :=
  ⟨Residue.prime_of_two_three 512 5 rfl (by decide +kernel) (by decide +kernel)
    (by decide +kernel) (by decide +kernel),
  Residue.prime_of_two_three 512 5 rfl (by decide +kernel) (by decide +kernel)
    (by decide +kernel) (by decide +kernel)⟩

theorem pipeline_sizes : 2 ^ 511 ≤ pipelineP ∧ 2 ^ 511 ≤ pipelineQ ∧
    KeyPair.pipeline.privateKey.lambda.toNat < 2 ^ 1024 := by
  decide +kernel

theorem pipeline_valid : KeyPair.pipeline.Valid pipelineP pipelineQ where
  prime_left := prime_pipeline.1
  prime_right := prime_pipeline.2
  ne := by decide +kernel
  n_eq := rfl
  nSquared_eq := rfl
  lambda_eq := rfl
  generator := by
    rw [Int.isCoprime_iff_gcd_eq_one]
    decide +kernel
  denominator := by
    show Residue.log (pipelineP * pipelineQ : ℕ) _ (pipelineP * pipelineQ + 1 : ℕ) * _
      ≡ 1 [ZMOD (pipelineP * pipelineQ : ℕ)]
    rw [Residue.log_eq_powMod pipeline_sizes.2.2]
    decide +kernel

/-- The encoding does not decrypt to itself. -/
theorem plaintext_voteEncoding :
    KeyPair.pipeline.plaintext voteEncoding ≠ voteEncoding % KeyPair.pipeline.publicKey.n := by
  show Residue.log (pipelineP * pipelineQ : ℕ) _ (voteEncoding : ℕ) * _ % _ ≠ _
  rw [Residue.log_eq_powMod pipeline_sizes.2.2]
  decide +kernel

/-- An election under that key pair with an empty file, and a ring of one. -/
def pipelineElection : World :=
  (PaillierRing.new KeyPair.reference 0 1 7
    (createDatabaseFile (Election.new KeyPair.pipeline (World.initial fun _ => [])))).2

/-- The ballot that votes for the first candidate. -/
def oneVote : List JString := ["1".toList]

theorem namesCandidates_oneVote : ∀ vote ∈ oneVote, NamesCandidates vote :=
  List.forall_mem_singleton.mpr (namesCandidates_iff.mpr ⟨49, rfl, by decide⟩)

/-- The SHA-1 numbers that signing the encoding asks for. -/
def Providers.pipeline : Providers where
  sha1 text :=
    if text = BigInteger.toText voteEncoding then 339984633818704589414731447945202227727566061479
    else if text = "339984633818704589414731447945202227727566061479".toList then
      410817917520654572932378904616509051694581875553
    else if text = "410817917520654572932378904616509051694581875552".toList then
      640284502178257278716285921670585201775201459105
    else 0
  nextInt := Providers.reference.nextInt

/-- The ballot is encoded, signed and added. -/
theorem casts_pipeline : ∃ casts w', Casts .pipeline pipelineElection casts w' ∧
    oneVote.mapM encodeVote = .ok (casts.map Prod.fst) := by
  have hsign : (referenceRing.sign .pipeline (fun _ => 0) voteEncoding pipelineElection).1
      = .ok () := by
    decide +kernel
  exact ⟨_, _, .cons rfl rfl hsign (.nil _), mapM_encodeVote namesCandidates_oneVote⟩

theorem pipeline_yields_iff_one_vote : ∃ casts w', Casts .pipeline pipelineElection casts w' ∧
    oneVote.mapM encodeVote = .ok (casts.map Prod.fst) ∧
    ((∃ total, tallyVotes (Election.new .pipeline w') = some total ∧
        revealResult (Election.new .pipeline w') total
          = .ok ((casts.map Prod.fst).sum % KeyPair.pipeline.publicKey.n)) ↔
      ∃ r : Int, IsCoprime r KeyPair.pipeline.publicKey.n ∧ (voteEncoding : Int) ^ 1
        ≡ KeyPair.pipeline.publicKey.g ^ (voteEncoding * 1)
          * r ^ KeyPair.pipeline.publicKey.n.toNat [ZMOD KeyPair.pipeline.publicKey.nSquared]) := by
  obtain ⟨casts, w', hrun, hcasts⟩ := casts_pipeline
  exact ⟨casts, w', hrun, hcasts, pipeline_yields_iff pipeline_valid pipeline_sizes.1
    pipeline_sizes.2.1 rfl rfl rfl (by simp [oneVote]) namesCandidates_oneVote hcasts hrun⟩

/-- One vote, and the tally reveals something else than its encoding. -/
theorem not_pipeline_yields_of_one_vote : ∃ casts w' total revealed,
    Casts .pipeline pipelineElection casts w' ∧
    oneVote.mapM encodeVote = .ok (casts.map Prod.fst) ∧
    tallyVotes (Election.new .pipeline w') = some total ∧
    revealResult (Election.new .pipeline w') total = .ok revealed ∧
    revealed ≠ (casts.map Prod.fst).sum % KeyPair.pipeline.publicKey.n := by
  obtain ⟨casts, w', hrun, hcasts⟩ := casts_pipeline
  obtain ⟨hmessages, total, htotal, hreveal⟩ := pipeline_reveals pipeline_valid pipeline_sizes.1
    pipeline_sizes.2.1 rfl rfl rfl (by simp [oneVote]) namesCandidates_oneVote hcasts hrun
  refine ⟨casts, w', total, _, hrun, hcasts, htotal, hreveal, ?_⟩
  rw [hmessages]
  simpa [oneVote] using plaintext_voteEncoding

end Evoting
