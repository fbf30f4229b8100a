import KopiaMetadata.Runtime
import KopiaMetadata.Crypto
import KopiaMetadata.Cache
import KopiaMetadata.Manager
import KopiaMetadata.Interleaving
import KopiaMetadata.MultiGet
import KopiaMetadata.RemoveMany
import KopiaMetadata.Api
import KopiaMetadata.Store
import KopiaMetadata.Proof.Frame
import KopiaMetadata.Proof.Pools
import KopiaMetadata.Proof.Reserved
import KopiaMetadata.Proof.Refinement
import KopiaMetadata.SharedGet
import KopiaMetadata.SharedRemove
import KopiaMetadata.Proof.Concurrent
