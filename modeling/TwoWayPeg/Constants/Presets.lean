import TwoWayPeg.Constants.Basic

/-!
The constants of the three networks that are known by name.
-/

namespace TwoWayPeg

namespace Constants

/-- The federation of the development network: the first multiples of the base point. -/
def developmentKeys : List PublicKey :=
  [ ⟨0x79be667ef9dcbbac55a06295ce870b07029bfcdb2dce28d959f2815b16f81798, false,
      by decide +kernel⟩,
    ⟨0xc6047f9441ed7d6d3045406e95c07cd85c778e4b8cef3ca7abac09b95c709ee5, false,
      by decide +kernel⟩,
    ⟨0xf9308a019258c31049344f85f89d5229b531c845836f99b08601f113bce036f9, false,
      by decide +kernel⟩ ]

/-- The emergency keys of the development network. -/
def developmentRecoveryKeys : List PublicKey :=
  [ ⟨0xe493dbf1c10d80f3581e4904930b1404cc6c13900ee0758474fa94abe8c4cd13, false,
      by decide +kernel⟩,
    ⟨0x2f8bde4d1a07209355b4a7250a5c5128e88b84bddc619ab7cba8d569b240efe4, false,
      by decide +kernel⟩ ]

/-- The host-chain account with a number of 20 bytes. -/
def account (n : Nat) : ChainAddress := ⟨Bytes.bigEndian 20 n, by simp⟩

/-- The voters of the development network. -/
def developmentAuthorizer : Authorizer where
  authorized :=
    [ account 0x2e80ab37dfb510a64526296fd1f295c42ef19c29,
      account 0x7e5f4552091a69125d5dfcb7b8c2659029395bdf,
      account 0x2b5ad5c4795c026514f8317c7a215e218dccd6cf ]
  policy := .majority

/-- The constants of the development network. Every rule is in force from the start. -/
def regtest : Constants where
  network := .regtest
  genesisKeys := developmentKeys
  genesisCreationTime := 1000
  federationAuthorizer := developmentAuthorizer
  feeAuthorizer := developmentAuthorizer
  activationAgeLegacy := 10
  activationAge := 20
  migrationAgeBegin := 15
  migrationAgeEnd := 150
  minimumPeginValue := 250000
  genesisFeePerKb := 10000
  maxFeePerKb := 5000000
  recoveryKeys := developmentRecoveryKeys
  recoveryDelay := 500
  oldFederationAddress := none
  pegoutIndexHeight := 250
  pegoutIndexGracePeriod := 100
  maxMigrationInputs := 50
  pegoutConfirmations := 3
  activations := .allFrom 0

/-- Public networks take their genesis federation, their emergency keys and their voters from a
    constants file; without one they have none. -/
def publicNetwork (network : Network) : Constants :=
  { regtest with
    network
    genesisKeys := []
    federationAuthorizer := { authorized := [], policy := .majority }
    feeAuthorizer := { authorized := [], policy := .majority }
    recoveryKeys := [] }

/-- The constants of the test network. -/
def testnet : Constants :=
  { publicNetwork .testnet with
    activationAgeLegacy := 60
    activationAge := 120
    migrationAgeBegin := 60
    migrationAgeEnd := 900
    minimumPeginValue := 500000
    genesisFeePerKb := 10000
    recoveryDelay := 52560
    oldFederationAddress := some "2N7ZgQyhFKm17RbaLqygYbS7KLrQfapyZzu"
    pegoutIndexHeight := 2589553
    pegoutIndexGracePeriod := 1440
    pegoutConfirmations := 10
    activations :=
      { erpFederations := some 1700000
        p2shErpFederations := some 4150000
        federationActivationAgeUpdate := some 4150000
        pegoutTxIndex := some 4150000 } }

/-- The constants of the main network. -/
def mainnet : Constants :=
  { publicNetwork .bitcoin with
    genesisCreationTime := 1514948400000
    activationAgeLegacy := 18500
    activationAge := 40320
    migrationAgeBegin := 0
    migrationAgeEnd := 10585
    minimumPeginValue := 500000
    genesisFeePerKb := 5000
    maxFeePerKb := 5000000
    recoveryDelay := 52560
    pegoutIndexHeight := 837589
    pegoutIndexGracePeriod := 4320
    pegoutConfirmations := 4000
    activations :=
      { erpFederations := some 4598500
        p2shErpFederations := some 5468376
        federationActivationAgeUpdate := some 5468376
        pegoutTxIndex := some 5468376 } }

/-- The constants of the network with a name. -/
def preset? (name : String) : Option Constants :=
  if name = "mainnet" then some mainnet
  else if name = "testnet" then some testnet
  else if name = "regtest" then some regtest
  else none

end Constants

end TwoWayPeg
