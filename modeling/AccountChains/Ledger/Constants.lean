import AccountChains.Authorship
import AccountChains.Epoch

/-!
Contract: what a network fixes once and for all.

The genesis block opens the genesis account with the whole supply. Its private
key is published for the development network, so that everyone can spend there
and sign epoch blocks.
-/

namespace AccountChains

structure LedgerConstants where
  genesis : Block
  genesisAccount : Account
  genesisAmount : Amount
  /-- The account that nobody may open. -/
  burnAccount : Account
  epochs : EpochLinks
  /-- Below this count of blocks, weights may come from a given snapshot. -/
  bootstrapMaxBlocks : UInt64

namespace LedgerConstants

/-- The link that a tag stands for: its characters, then zeros. -/
def epochLink (tag : String) : Link :=
  let bytes := tag.toUTF8.toList
  .ofBytes (bytes ++ List.replicate (32 - bytes.length) 0)

/-- The published key of the development network. -/
def devKey : SecretKey :=
  ⟨0x34f0a37aad20f4a260f0a5b3cb3d7fb50673212263e58a380bc10474bb039ce4⟩

/-- The development network. -/
def dev : LedgerConstants :=
  let account := devKey.account
  { genesis := devKey.openingBlock account.asBlockHash account 0
    genesisAccount := account
    genesisAmount := .greatest
    burnAccount := .zero
    epochs := (EpochLinks.none.register .one account (epochLink "epoch v1 block")).register
      .two account (epochLink "epoch v2 block")
    bootstrapMaxBlocks := 0 }

end LedgerConstants

end AccountChains
