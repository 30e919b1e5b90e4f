import IpldEthIndexer.Postgres.Tx
import IpldEthIndexer.Eth.Schema
import IpldEthIndexer.Eth.Cleaner
import IpldEthIndexer.Eth.Scope
import IpldEthIndexer.Eth.Ranges
import IpldEthIndexer.Transformers.CheckedHeaders
import IpldEthIndexer.Transformers.ChopLump
import IpldEthIndexer.Eth.Cascade
import IpldEthIndexer.Eth.CascadeBounds
import IpldEthIndexer.Eth.Commute
import IpldEthIndexer.Eth.Validation
